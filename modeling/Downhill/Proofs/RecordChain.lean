import Downhill.Problem.Analytic
import Downhill.Proofs.RunHistory

/-!
# Chains of records

Each record of a run begins where the one before it ends, and what it says about its two end points
is true of the objective. The reason is an invariant of the loop: the iterate always carries the
value and the gradient of its own point, whichever method moves it.
-/

namespace Downhill

variable {F σ : Type} [Arithmetic F]

/-- An iterate that carries the value and the gradient of its point. -/
structure Iterate.Faithful (obj : Objective F) (current : Iterate F) : Prop where
  loss : current.loss = obj.value current.point
  gradient : current.gradient = obj.gradient current.point

/-- A record whose values, gradients and norms are those of its end points, and whose step leads
from one to the other. -/
structure IterationRecord.Faithful (obj : Objective F) (r : IterationRecord F) : Prop where
  loss : r.loss = obj.value r.wOld
  newLoss : r.newLoss = obj.value r.wNew
  gradient : r.gradient = obj.gradient r.wOld
  gradNorm : r.gradNorm = norm (obj.gradient r.wOld)
  newGradNorm : r.newGradNorm = norm (obj.gradient r.wNew)
  wNew : r.wNew = along r.wOld r.stepSize r.direction

/-- Records that lead from a start point on, each from the end of the one before. -/
structure Trace.Chained (obj : Objective F) (start : List F) (trace : Trace F) : Prop where
  index : ∀ i (hi : i < trace.iterations.length), trace.iterations[i].index = i
  faithful : ∀ i (hi : i < trace.iterations.length), trace.iterations[i].Faithful obj
  first : trace.iterations.head?.map (·.wOld) = some start
  point : ∀ i (hi : i + 1 < trace.iterations.length),
    trace.iterations[i + 1].wOld = trace.iterations[i].wNew
  loss : ∀ i (hi : i + 1 < trace.iterations.length),
    trace.iterations[i + 1].loss = trace.iterations[i].newLoss
  gradNorm : ∀ i (hi : i + 1 < trace.iterations.length),
    trace.iterations[i + 1].gradNorm = trace.iterations[i].newGradNorm
  losses : trace.losses = obj.value start :: trace.iterations.map fun r => obj.value r.wNew

namespace Method

variable {method : Method F σ} {obj : Objective F} {criteria : StoppingCriteria F}
  {s t : RunState F σ} {record : IterationRecord F}

lemma Steps.points (h : method.Steps obj s record t) :
    record.wOld = s.current.point ∧ record.wNew = t.current.point := by
  obtain ⟨heading, counts, -, hout⟩ := h
  cases hout
  exact ⟨rfl, rfl⟩

/-- An iteration from a faithful iterate leaves a faithful record and a faithful iterate. -/
lemma Steps.faithful (h : method.Steps obj s record t) (hs : s.current.Faithful obj) :
    record.Faithful obj ∧ t.current.Faithful obj := by
  obtain ⟨heading, counts, -, hout⟩ := h
  cases hout
  obtain ⟨hpoint, hvalue⟩ := method.rule.step_point obj s.current heading.direction
  refine ⟨⟨hs.loss, hvalue, hs.gradient, ?_, rfl, hpoint⟩, ⟨hvalue, rfl⟩⟩
  exact congrArg norm hs.gradient

lemma History.faithful {states : Nat → RunState F σ} {records : List (IterationRecord F)}
    {reason : TerminationReason} (h : method.History obj criteria states records reason)
    (hstart : (states 0).current.Faithful obj) :
    ∀ i, i ≤ records.length → (states i).current.Faithful obj := by
  apply h.invariant (fun _ s => s.current.Faithful obj) hstart
  intro i hi hs hstep
  exact (hstep.faithful hs).2

/-- The state of a run in vectors of dimension `n`. -/
structure IsSized (obj : Objective F) (n : Nat) (s : RunState F σ) : Prop where
  faithful : s.current.Faithful obj
  point : s.current.point.length = n

lemma isSized_startState {options : Options F} {algorithm : Algorithm}
    (h : options.validate algorithm obj.dim obj.hasHessian = .ok ()) :
    IsSized obj obj.dim (method.startState obj options) :=
  ⟨⟨rfl, rfl⟩, (Options.validate_eq_ok_iff.mp h).length⟩

lemma Steps.gradient_length {n : Nat} (h : method.Steps obj s record t)
    (hdim : ∀ w, w.length = n → (obj.gradient w).length = n) (hs : IsSized obj n s) :
    record.gradient.length = n := by
  rw [(h.faithful hs.faithful).1.gradient, h.points.1]
  exact hdim _ hs.point

lemma Steps.isSized {n : Nat} (h : method.Steps obj s record t) (hs : IsSized obj n s)
    (hdirection : record.direction.length = n) : IsSized obj n t := by
  obtain ⟨hrecord, ht⟩ := h.faithful hs.faithful
  refine ⟨ht, ?_⟩
  rw [← h.points.2, hrecord.wNew, along, List.length_zipWith, h.points.1, hs.point, hdirection,
    Nat.min_self]

end Method

omit [Arithmetic F] in
lemma Trace.losses_eq_cons (trace : Trace F) (h : 0 < trace.iterations.length) :
    trace.losses = trace.iterations[0].loss :: trace.iterations.map (·.newLoss) := by
  unfold losses
  obtain ⟨first, rest, hcons⟩ := List.exists_cons_of_length_pos h
  simp only [hcons, List.getElem_cons_zero]

lemma run_record_faithful {algorithm : Algorithm} {obj : Objective F} {options : Options F}
    {trace : Trace F} (h : run algorithm obj options = .ok trace) (i : Nat)
    (hi : i < trace.iterations.length) : trace.iterations[i].Faithful obj := by
  obtain ⟨states, hstart, -, hist⟩ := run_history h
  have hfaithful : (states i).current.Faithful obj :=
    hist.faithful (by rw [hstart]; exact ⟨rfl, rfl⟩) i (Nat.le_of_lt hi)
  exact ((hist.steps i hi).faithful hfaithful).1

/-- What every iteration says of its record, from states in vectors of the dimension of the
objective. -/
lemma run_forall_sized_records {algorithm : Algorithm} {obj : Objective F} {options : Options F}
    {trace : Trace F} (h : run algorithm obj options = .ok trace) (Q : IterationRecord F → Prop)
    (hstep : ∀ s record t, Method.IsSized obj obj.dim s →
      (algorithm.method obj options).2.Steps obj s record t →
      Q record ∧ Method.IsSized obj obj.dim t) (i : Nat) (hi : i < trace.iterations.length) :
    Q trace.iterations[i] :=
  run_forall_records h (fun s => Method.IsSized obj obj.dim s) Q
    (Method.isSized_startState ((run_eq_ok_iff ..).mp h).1) hstep i hi

/-- The losses before and after a record stand side by side in the losses of the run. -/
lemma run_losses_getElem? {algorithm : Algorithm} {obj : Objective F} {options : Options F}
    {trace : Trace F} (h : run algorithm obj options = .ok trace) (i : Nat)
    (hi : i < trace.iterations.length) :
    trace.losses[i]? = some trace.iterations[i].loss ∧
      trace.losses[i + 1]? = some trace.iterations[i].newLoss := by
  obtain ⟨states, -, -, hist⟩ := run_history h
  rw [trace.losses_eq_cons hist.length_pos]
  constructor
  · cases i with
    | zero => rfl
    | succ i =>
      have hi' : i < trace.iterations.length := by omega
      rw [List.getElem?_cons_succ, List.getElem?_map, List.getElem?_eq_getElem hi', Option.map_some,
        (run_record_faithful h i hi').newLoss, (run_record_faithful h (i + 1) hi).loss,
        (hist.steps i hi').points.2, (hist.steps (i + 1) hi).points.1]
  · rw [List.getElem?_cons_succ, List.getElem?_map, List.getElem?_eq_getElem hi, Option.map_some]

/-- The records of every run form a chain from the initial point. -/
theorem run_chained (algorithm : Algorithm) (obj : Objective F) (options : Options F)
    (trace : Trace F) (h : run algorithm obj options = .ok trace) :
    trace.Chained obj options.initialPoint := by
  have hfaithful := run_record_faithful h
  obtain ⟨states, hstart, -, hist⟩ := run_history h
  have hpos := hist.length_pos
  have hfirst : trace.iterations[0].wOld = options.initialPoint := by
    rw [(hist.steps 0 hpos).points.1, hstart]
    rfl
  have hpoint : ∀ i (hi : i + 1 < trace.iterations.length),
      trace.iterations[i + 1].wOld = trace.iterations[i].wNew := by
    intro i hi
    rw [(hist.steps (i + 1) hi).points.1, (hist.steps i (by omega)).points.2]
  refine ⟨hist.record_index (by rw [hstart]; rfl), hfaithful, ?_, hpoint, ?_, ?_, ?_⟩
  · rw [List.head?_eq_getElem?, List.getElem?_eq_getElem hpos, Option.map_some, hfirst]
  · intro i hi
    rw [(hfaithful (i + 1) hi).loss, (hfaithful i (by omega)).newLoss, hpoint i hi]
  · intro i hi
    rw [(hfaithful (i + 1) hi).gradNorm, (hfaithful i (by omega)).newGradNorm, hpoint i hi]
  · have hnew : ∀ r ∈ trace.iterations, r.newLoss = obj.value r.wNew := by
      intro r hr
      obtain ⟨i, hi, rfl⟩ := List.mem_iff_getElem.mp hr
      exact (hfaithful i hi).newLoss
    rw [trace.losses_eq_cons hpos, (hfaithful 0 hpos).loss, hfirst, List.map_congr_left hnew]

/-- Four iterations on a function with three minima, with room for one curvature pair. -/
def camelOptions : Options Float :=
  { Options.standard .double with
    maxIter := 4
    initialPoint := AnalyticProblem.threeHumpCamel.initialPoint
    memory := 1 }

/-- One pair is stored, the next one takes its place, and two steps show no positive curvature. -/
lemma camel_run : ∃ trace,
    run .lbfgs AnalyticProblem.threeHumpCamel.objective camelOptions = .ok trace ∧
      trace.iterations.map (fun r => r.lbfgs.map (·.update)) =
        [some .stored, some .storedEvictingOldest, some .skippedCurvature,
          some .skippedCurvature] :=
  exists_trace_of_toOption (fun trace => trace.iterations.map fun r => r.lbfgs.map (·.update))
    (by decide +kernel)

theorem camel_run_chained : ∃ trace,
    run .lbfgs AnalyticProblem.threeHumpCamel.objective camelOptions = .ok trace ∧
      trace.iterations.length = 4 ∧
      trace.Chained AnalyticProblem.threeHumpCamel.objective camelOptions.initialPoint := by
  obtain ⟨trace, hrun, hupdates⟩ := camel_run
  refine ⟨trace, hrun, ?_, run_chained _ _ _ trace hrun⟩
  simpa using congrArg List.length hupdates

end Downhill
