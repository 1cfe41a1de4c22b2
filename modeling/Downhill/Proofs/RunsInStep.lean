import Downhill.Proofs.EvaluationAccounts

/-!
# Runs in step

Two methods that go the same way leave records that look alike. `Method.InStep` says so of one
iteration: from related states both leave records with the same view, and as long as a condition on
the record holds the states after it are related again. A view keeps what the stopping rules look
at, so they treat both runs alike. The runs agree up to and including the first record that breaks
the condition, and altogether if they end there or before.
-/

namespace Downhill

variable {F σ τ : Type} [Arithmetic F]

/-- A part of a record that keeps its progress and its number of evaluations. -/
structure IterationRecord.IsView (view : IterationRecord F → IterationRecord F) : Prop where
  progress : ∀ r, (view r).progress = r.progress
  evaluations : ∀ r, (view r).evaluations = r.evaluations

/-- States of two methods in front of the same iteration from the same iterate. -/
structure RunState.SamePlace (s : RunState F σ) (s' : RunState F τ) : Prop where
  index : s.index = s'.index
  current : s.current = s'.current

namespace Method

variable {method : Method F σ} {method' : Method F τ} {obj : Objective F}
  {criteria : StoppingCriteria F} {s t : RunState F σ} {s' t' : RunState F τ}
  {r r' : IterationRecord F} {records records' : List (IterationRecord F)}
  {reason reason' : TerminationReason}

lemma Steps.gradient_eq (h : method.Steps obj s r t) : r.gradient = s.current.gradient := by
  obtain ⟨heading, counts, -, hout⟩ := h
  cases hout
  rfl

lemma Steps.lbfgs_eq_none (h : method.Steps obj s r t)
    (hlearn : ∀ memory heading record gradient,
      (method.learn memory heading record gradient).1 = none) : r.lbfgs = none := by
  obtain ⟨heading, counts, -, hout⟩ := h
  cases hout
  exact hlearn ..

/-- Steps in the same direction by the same rule lead to the same place, and what is left to differ
in their records are the diagnostics of the methods. -/
lemma Steps.samePlace (h : method.Steps obj s r t) (h' : method'.Steps obj s' r' t')
    (hplace : s.SamePlace s') (hrule : method.rule = method'.rule)
    (hdirection : r.direction = r'.direction) :
    t.SamePlace t' ∧ r' = { r with curvature := r'.curvature, lbfgs := r'.lbfgs } := by
  obtain ⟨heading, counts, -, hout⟩ := h
  obtain ⟨heading', counts', -, hout'⟩ := h'
  obtain ⟨hindex, hcurrent⟩ := hplace
  cases hout
  cases hout'
  have hheading : heading.direction = heading'.direction := hdirection
  simp only [IterationRecord.withNote, Iterate.record, hrule, hindex, hcurrent, hheading]
  exact ⟨⟨rfl, rfl⟩, trivial⟩

/-- Iterations of both methods from related states leave records with the same view, and lead to
related states again while the records keep the methods together. -/
def InStep (method : Method F σ) (method' : Method F τ) (obj : Objective F)
    (view : IterationRecord F → IterationRecord F) (together : IterationRecord F → Prop)
    (Related : RunState F σ → RunState F τ → Prop) : Prop :=
  ∀ ⦃s s' r r' t t'⦄, Related s s' → method.Steps obj s r t → method'.Steps obj s' r' t' →
    view r = view r' ∧ (together r → Related t t')

variable {view : IterationRecord F → IterationRecord F} {together : IterationRecord F → Prop}
  {Related : RunState F σ → RunState F τ → Prop}

/-- If the first `k` records keep the methods together, one more record looks the same, and courses
that are no longer than that look the same altogether. -/
theorem Runs.inStep (hview : IterationRecord.IsView view)
    (hstep : InStep method method' obj view together Related)
    (h : method.Runs obj criteria s records reason t)
    (h' : method'.Runs obj criteria s' records' reason' t') (hs : Related s s') (k : ℕ)
    (htogether : ∀ r ∈ records.take k, together r) :
    (records.take (k + 1)).map view = (records'.take (k + 1)).map view ∧
      (records.length ≤ k + 1 ∨ records'.length ≤ k + 1 →
        records.map view = records'.map view ∧ reason = reason') := by
  -- Records with the same view have the same progress, so the rules stop both courses or neither.
  induction h generalizing s' records' reason' t' k with
  | stop hsteps he =>
    cases h' with
    | stop hsteps' he' =>
      have hsame := (hstep hs hsteps hsteps').1
      rw [← hview.progress, hsame, hview.progress, he', Option.some_inj] at he
      simp [hsame, he]
    | next hsteps' he' hrest' =>
      rw [← hview.progress, (hstep hs hsteps hsteps').1, hview.progress, he'] at he
      cases he
  | next hsteps he hrest ih =>
    cases h' with
    | stop hsteps' he' =>
      rw [← hview.progress, (hstep hs hsteps hsteps').1, hview.progress, he'] at he
      cases he
    | next hsteps' he' hrest' =>
      obtain ⟨hsame, hnext⟩ := hstep hs hsteps hsteps'
      cases k with
      | zero =>
        have hpos := hrest.length_pos
        have hpos' := hrest'.length_pos
        refine ⟨by simp [hsame], fun hshort => ?_⟩
        simp only [List.length_cons] at hshort
        omega
      | succ k =>
        rw [List.take_succ_cons, List.forall_mem_cons] at htogether
        obtain ⟨htaken, hall⟩ := ih hrest' (hnext htogether.1) k htogether.2
        refine ⟨?_, fun hshort => ?_⟩
        · simp only [List.take_succ_cons, List.map_cons, hsame] at htaken ⊢
          rw [htaken]
        · simp only [List.length_cons, Nat.add_le_add_iff_right] at hshort
          obtain ⟨hmap, hreason⟩ := hall hshort
          exact ⟨by rw [List.map_cons, List.map_cons, hsame, hmap], hreason⟩

end Method

/-- Runs under the same stopping rules from related states: as many records look the same as there
are ones that keep the methods together, and one more. Runs that are no longer than that look the
same altogether and spend the same if both or none of them read second derivatives. -/
theorem run_inStep {algorithm algorithm' : Algorithm} {obj : Objective F} {o o' : Options F}
    {trace trace' : Trace F} {view : IterationRecord F → IterationRecord F}
    {together : IterationRecord F → Prop}
    {Related : RunState F (algorithm.method obj o).1 →
      RunState F (algorithm'.method obj o').1 → Prop}
    (h : run algorithm obj o = .ok trace) (h' : run algorithm' obj o' = .ok trace')
    (hstep : (algorithm.method obj o).2.InStep (algorithm'.method obj o').2 obj view together
      Related)
    (hview : IterationRecord.IsView view)
    (hstart : Related ((algorithm.method obj o).2.startState obj o)
      ((algorithm'.method obj o').2.startState obj o'))
    (hcriteria : o.criteria = o'.criteria)
    (hneeds : algorithm.needsHessian = algorithm'.needsHessian)
    (k : ℕ) (htogether : ∀ r ∈ trace.iterations.take k, together r) :
    (trace.iterations.take (k + 1)).map view = (trace'.iterations.take (k + 1)).map view ∧
      (trace.iterations.length ≤ k + 1 ∨ trace'.iterations.length ≤ k + 1 →
        trace.iterations.map view = trace'.iterations.map view ∧
        trace.termination = trace'.termination ∧ trace.evaluations = trace'.evaluations) := by
  obtain ⟨hvalid, -, -, t, hruns, hcounts⟩ := (run_eq_ok_iff ..).mp h
  obtain ⟨hvalid', -, -, t', hruns', hcounts'⟩ := (run_eq_ok_iff ..).mp h'
  rw [← hcriteria] at hruns'
  obtain ⟨htaken, hall⟩ := hruns.inStep hview hstep hruns' hstart k htogether
  refine ⟨htaken, fun hshort => ?_⟩
  obtain ⟨hmap, hreason⟩ := hall hshort
  have hlength : trace.iterations.length = trace'.iterations.length := by
    simpa using congrArg List.length hmap
  have hevaluations : trace.iterations.map (·.evaluations) =
      trace'.iterations.map (·.evaluations) := by
    simpa only [List.map_map, Function.comp_def, hview.evaluations] using
      congrArg (List.map (·.evaluations)) hmap
  refine ⟨hmap, hreason, ?_⟩
  rw [hcounts, hcounts', (hruns.spent hvalid).2, (hruns'.spent hvalid').2, hevaluations, hlength,
    hneeds]
  rfl

end Downhill
