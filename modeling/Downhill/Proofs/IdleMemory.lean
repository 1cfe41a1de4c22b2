import Downhill.Proofs.ExactStopping
import Downhill.Proofs.MemoryQueue
import Downhill.Proofs.RunsInStep

/-!
# Idle memory

The limit of a memory shows only when a pair has to go, and the memory itself only once it holds a
pair. So runs with different limits are in step for as many records as the smaller memory has room,
and as long as every pair is skipped the limited memory method is in step with steepest descent.
-/

namespace Downhill

variable {F : Type} [Arithmetic F]

namespace Options

variable {options : Options F} {dim limit : Nat} {hasHessian : Bool}

/-- Of the memory nothing is checked but that it has room for a pair. -/
lemma validate_memory (h : options.validate .lbfgs dim hasHessian = .ok ()) (hlimit : 0 < limit) :
    { options with memory := limit }.validate .lbfgs dim hasHessian = .ok () := by
  rw [validate_eq_ok_iff] at h ⊢
  exact ⟨h.start, h.length, h.maxIter, fun _ => hlimit, h.hessian, h.damping, h.alpha, h.c1, h.trials,
    h.tolerances⟩

lemma validate_steepest (h : options.validate .lbfgs dim hasHessian = .ok ()) :
    options.validate .gradientDescentLineSearch dim hasHessian = .ok () := by
  rw [validate_eq_ok_iff] at h ⊢
  exact ⟨h.start, h.length, h.maxIter, nofun, nofun, nofun, nofun, h.c1, h.trials, h.tolerances⟩

end Options

namespace CurvatureMemory

variable {m m' : CurvatureMemory F}

/-- While there is room, what becomes of a pair does not depend on how much room there is. -/
lemma learn_of_room (s y : List F) (hpairs : m.toList = m'.toList)
    (hroom : m.toList.length < m.capacity) (hroom' : m'.toList.length < m'.capacity) :
    (m.learn s y).1 = (m'.learn s y).1 ∧ (m.learn s y).2.toList = (m'.learn s y).2.toList := by
  have hupdate : (m.learn s y).1 = (m'.learn s y).1 := by
    simp only [learn_fst, hroom, hroom', if_true]
  refine ⟨hupdate, ?_⟩
  rw [toList_learn, toList_learn, hupdate, Nat.sub_eq_zero_of_le hroom,
    Nat.sub_eq_zero_of_le hroom', hpairs]

lemma length_toList_learn_le (m : CurvatureMemory F) (s y : List F) :
    (m.learn s y).2.toList.length ≤ m.toList.length + 1 := by
  rw [toList_learn]
  split_ifs
  · simp
  · simp

end CurvatureMemory

namespace Method

variable {limit limit' : Nat} {params : ArmijoParams F} {obj : Objective F}

lemma lbfgs_steps_curvature {s t : RunState F (CurvatureMemory F)} {r : IterationRecord F}
    (h : (Method.lbfgs limit params).Steps obj s r t) : r.curvature = none := by
  obtain ⟨heading, counts, hhead, hout⟩ := h
  rw [lbfgs_heading_run] at hhead
  cases hhead
  cases hout
  change (lbfgsHeading _ _).curvature = none
  unfold lbfgsHeading
  split <;> rfl

/-- Two memories in front of the same iteration that hold the same pairs and both have room. -/
structure SharesPairs (obj : Objective F) (limit : Nat) (s s' : RunState F (CurvatureMemory F)) :
    Prop extends s.SamePlace s' where
  faithful : s.current.Faithful obj
  pairs : s.memory.toList = s'.memory.toList
  length_le : s.memory.toList.length ≤ s.index
  index_lt : s.index < limit
  capacity : s.memory.capacity = limit
  limit_le : limit ≤ s'.memory.capacity

lemma lbfgs_inStep_lbfgs : (Method.lbfgs limit params).InStep (Method.lbfgs limit' params) obj id
    (fun r => r.index + 1 < limit) (SharesPairs obj limit) := by
  intro s s' r r' t t' hs h h'
  obtain ⟨hdirection, hnote, hmemory⟩ := lbfgs_steps h hs.faithful
  obtain ⟨hdirection', hnote', hmemory'⟩ := lbfgs_steps h' (hs.current ▸ hs.faithful)
  have hgradient : r.gradient = r'.gradient := by
    rw [h.gradient_eq, h'.gradient_eq, hs.current]
  have hsame : r.direction = r'.direction := by
    rw [hdirection, hdirection', hs.pairs, hgradient]
  obtain ⟨hplace, hrecord⟩ := h.samePlace h' hs.toSamePlace rfl hsame
  have hpair : r'.pair obj = r.pair obj := by rw [hrecord]; rfl
  -- An iteration stores at most one pair, so up to iteration `limit` both memories have room.
  have hroom : s.memory.toList.length < s.memory.capacity := by
    have := hs.length_le
    have := hs.index_lt
    rw [hs.capacity]
    omega
  have hroom' : s'.memory.toList.length < s'.memory.capacity := by
    have := hs.capacity
    have := hs.limit_le
    rw [← hs.pairs]
    omega
  obtain ⟨hupdate, hpairs⟩ := CurvatureMemory.learn_of_room (r.pair obj).s (r.pair obj).y hs.pairs
    hroom hroom'
  have hlbfgs : r.lbfgs = r'.lbfgs := by
    rw [hnote, hnote', hpair, hs.pairs, hgradient, hupdate]
  refine ⟨?_, fun htogether => ?_⟩
  · have hcurvature : r.curvature = r'.curvature := by
      rw [lbfgs_steps_curvature h, lbfgs_steps_curvature h']
    rw [hrecord, ← hlbfgs, ← hcurvature]
  · have hindex := h.index_eq
    have hlength := CurvatureMemory.length_toList_learn_le s.memory (r.pair obj).s (r.pair obj).y
    exact {
      toSamePlace := hplace
      faithful := (h.faithful hs.faithful).2
      pairs := by rw [hmemory, hmemory', hpair, hpairs]
      length_le := by
        have := hs.length_le
        rw [hmemory, hindex.2]
        omega
      index_lt := by omega
      capacity := by rw [hmemory, CurvatureMemory.capacity_learn, hs.capacity]
      limit_le := by rw [hmemory', CurvatureMemory.capacity_learn]; exact hs.limit_le }

/-- A memory without pairs in front of an iteration of steepest descent. -/
structure IsIdle (obj : Objective F) (s : RunState F (CurvatureMemory F)) (s' : RunState F Unit) :
    Prop extends s.SamePlace s' where
  faithful : s.current.Faithful obj
  empty : s.memory.toList = []

lemma lbfgs_inStep_steepest : (Method.lbfgs limit params).InStep (Method.steepest (.armijo params))
    obj (·.withNote none) (fun r => ¬ r.hasStored) (IsIdle obj) := by
  intro s s' r r' t t' hs h h'
  obtain ⟨hdirection, -, hmemory⟩ := lbfgs_steps h hs.faithful
  obtain ⟨hdirection', hcurvature', -⟩ := steepest_steps h'
  have hsame : r.direction = r'.direction := by
    rw [hdirection, hdirection', hs.empty, h.gradient_eq, h'.gradient_eq, hs.current]
    rfl
  obtain ⟨hplace, hrecord⟩ := h.samePlace h' hs.toSamePlace rfl hsame
  refine ⟨?_, fun hskipped => ⟨hplace, (h.faithful hs.faithful).2, ?_⟩⟩
  · rw [hrecord, hcurvature', ← lbfgs_steps_curvature h]
    rfl
  · have hupdate : ¬ (s.memory.learn (r.pair obj).s (r.pair obj).y).1 ≠ .skippedCurvature := by
      simpa [lbfgs_steps_hasStored h hs.faithful] using hskipped
    rw [hmemory, CurvatureMemory.toList_learn, if_neg hupdate, hs.empty]

end Method

lemma run_map_withNote_none {algorithm : Algorithm} {obj : Objective F} {options : Options F}
    {trace : Trace F} (h : run algorithm obj options = .ok trace)
    (halgorithm : algorithm ≠ .lbfgs) :
    trace.iterations.map (·.withNote none) = trace.iterations := by
  obtain ⟨hvalid, -, -, t, hruns, -⟩ := (run_eq_ok_iff ..).mp h
  refine (List.map_congr_left fun r hr => ?_).trans (List.map_id _)
  have hnote : r.lbfgs = none := by
    simpa [halgorithm] using ((hruns.spent hvalid).1 r hr).lbfgs
  rw [← hnote]
  rfl

/-- There is room for the pairs of a memory if there is room for those of a larger one. -/
lemma Options.HasRoom.of_memory_le {options : Options F} {limit : Nat}
    (h : { options with memory := limit }.HasRoom .lbfgs) (hlimit : options.memory ≤ limit) :
    options.HasRoom .lbfgs := by
  refine ⟨h.trials, fun _ => ?_⟩
  have hpairs := h.pairs rfl
  unfold CurvatureMemory.hasRoom canReserve at hpairs ⊢
  cases hbytes : CurvatureMemory.pairBytes F with
  | none => rfl
  | some bytes =>
    rw [hbytes] at hpairs
    simp only [Option.all_some, decide_eq_true_eq] at hpairs ⊢
    have hle : min options.memory options.maxIter ≤ min limit options.maxIter := by omega
    exact (Nat.mul_le_mul_right bytes hle).trans_lt hpairs

/-- Two limits of the memory: the runs agree on as many records as the smaller memory has room for
pairs, and altogether if one of them is no longer than that, as all are if the limit is not below
the number of iterations. Both runs have a trace if there is room for what the larger memory needs. -/
theorem memory_limit_spares_first_records (obj : Objective F) (options : Options F) (limit : Nat)
    (hvalid : options.validate .lbfgs obj.dim obj.hasHessian = .ok ())
    (hlimit : options.memory ≤ limit) :
    ({ options with memory := limit }.HasRoom .lbfgs →
      ∃ trace trace', run .lbfgs obj options = .ok trace ∧
        run .lbfgs obj { options with memory := limit } = .ok trace') ∧
    ∀ trace trace', run .lbfgs obj options = .ok trace →
      run .lbfgs obj { options with memory := limit } = .ok trace' →
      trace.iterations.take options.memory = trace'.iterations.take options.memory ∧
      (trace.iterations.length ≤ options.memory ∨ trace'.iterations.length ≤ options.memory →
        trace = trace') ∧
      (options.maxIter ≤ options.memory → trace = trace') := by
  have hpos := (Options.validate_eq_ok_iff.mp hvalid).memory rfl
  constructor
  · intro hroom
    obtain ⟨trace, hrun⟩ := exists_trace_of_firstOrder rfl hvalid (hroom.of_memory_le hlimit)
    obtain ⟨trace', hrun'⟩ := exists_trace_of_firstOrder rfl
      (Options.validate_memory hvalid (hpos.trans_le hlimit)) hroom
    exact ⟨trace, trace', hrun, hrun'⟩
  intro trace trace' hrun hrun'
  have hstart : Method.SharesPairs obj options.memory
      ((Method.lbfgs options.memory options.armijo).startState obj options)
      ((Method.lbfgs limit options.armijo).startState obj { options with memory := limit }) :=
    { index := rfl
      current := rfl
      faithful := ⟨rfl, rfl⟩
      pairs := by simp [Method.startState, Method.lbfgs]
      length_le := by simp [Method.startState, Method.lbfgs]
      index_lt := hpos
      capacity := rfl
      limit_le := hlimit }
  have hindices : ∀ r ∈ trace.iterations.take (options.memory - 1),
      r.index + 1 < options.memory := by
    intro r hr
    obtain ⟨states, hfirst, -, hist⟩ := run_history hrun
    obtain ⟨i, hi, rfl⟩ := List.mem_take_iff_getElem.mp hr
    rw [hist.record_index (by rw [hfirst]; rfl)]
    omega
  obtain ⟨htaken, hall⟩ := run_inStep hrun hrun' Method.lbfgs_inStep_lbfgs
    ⟨fun _ => rfl, fun _ => rfl⟩ hstart rfl rfl (options.memory - 1) hindices
  rw [Nat.sub_add_cancel hpos, List.map_id, List.map_id] at htaken
  rw [Nat.sub_add_cancel hpos, List.map_id, List.map_id] at hall
  have hequal : trace.iterations.length ≤ options.memory ∨
      trace'.iterations.length ≤ options.memory → trace = trace' := by
    intro hshort
    obtain ⟨hiterations, htermination, hevaluations⟩ := hall hshort
    have halgorithm := ((run_eq_ok_iff ..).mp hrun).2.1
    have halgorithm' := ((run_eq_ok_iff ..).mp hrun').2.1
    cases trace
    cases trace'
    simp_all only
  refine ⟨htaken, hequal, fun hiter => hequal (.inl ?_)⟩
  exact (run_stoppedBy hrun).length_le.trans hiter

/-- With room for one pair the second record differs, for there the first pair has to go. -/
theorem camel_runs_share_first_record : ∃ small large,
    run .lbfgs AnalyticProblem.threeHumpCamel.objective camelOptions = .ok small ∧
      run .lbfgs AnalyticProblem.threeHumpCamel.objective { camelOptions with memory := 5 } =
        .ok large ∧
      small.iterations.take 1 = large.iterations.take 1 ∧
      small.iterations.take 2 ≠ large.iterations.take 2 := by
  obtain ⟨hexists, hlaw⟩ := memory_limit_spares_first_records
    AnalyticProblem.threeHumpCamel.objective camelOptions 5 (by decide +kernel) (by decide)
  obtain ⟨small, large, hsmall, hlarge⟩ := hexists ⟨fun _ => by decide, fun _ => by decide⟩
  have htaken := (hlaw small large hsmall hlarge).1
  obtain ⟨_, hrun, hupdates⟩ := camel_run
  obtain rfl := Except.ok.inj (hsmall.symm.trans hrun)
  obtain ⟨_, hrun', hupdates'⟩ : ∃ trace,
      run .lbfgs AnalyticProblem.threeHumpCamel.objective { camelOptions with memory := 5 } =
        .ok trace ∧
        trace.iterations.map (fun r => r.lbfgs.map (·.update)) =
          [some .stored, some .stored, some .skippedCurvature, some .skippedCurvature] :=
    exists_trace_of_toOption _ (by decide +kernel)
  obtain rfl := Except.ok.inj (hlarge.symm.trans hrun')
  refine ⟨small, large, hsmall, hlarge, htaken, fun hequal => ?_⟩
  have hlabels := congrArg (List.map fun r => r.lbfgs.map (·.update)) hequal
  rw [List.map_take, List.map_take, hupdates, hupdates'] at hlabels
  simp at hlabels

/-- Until a first pair is stored, and in the record that says so, the limited memory method does
what steepest descent does, and if no pair is ever stored the traces differ in the notes about the
memory only. Both runs have a trace if there is room for what the limited memory method needs. -/
theorem lbfgs_without_curvature_is_steepest (obj : Objective F) (options : Options F)
    (hvalid : options.validate .lbfgs obj.dim obj.hasHessian = .ok ()) :
    (options.HasRoom .lbfgs → ∃ trace trace', run .lbfgs obj options = .ok trace ∧
      run .gradientDescentLineSearch obj options = .ok trace') ∧
    ∀ trace trace', run .lbfgs obj options = .ok trace →
      run .gradientDescentLineSearch obj options = .ok trace' →
      (∀ k, (∀ r ∈ trace.iterations.take k, ¬ r.hasStored) →
        (trace.iterations.take (k + 1)).map (·.withNote none) = trace'.iterations.take (k + 1)) ∧
      ((∀ r ∈ trace.iterations, ¬ r.hasStored) →
        trace' = { trace with
          algorithm := .gradientDescentLineSearch
          iterations := trace.iterations.map (·.withNote none) }) := by
  constructor
  · intro hroom
    obtain ⟨trace, hrun⟩ := exists_trace_of_firstOrder rfl hvalid hroom
    obtain ⟨trace', hrun'⟩ := exists_trace_of_firstOrder rfl (Options.validate_steepest hvalid)
      ⟨fun _ => hroom.trials rfl, nofun⟩
    exact ⟨trace, trace', hrun, hrun'⟩
  intro trace trace' hrun hrun'
  have hstart : Method.IsIdle obj
      ((Method.lbfgs options.memory options.armijo).startState obj options)
      ((Method.steepest (.armijo options.armijo)).startState obj options) :=
    ⟨⟨rfl, rfl⟩, ⟨rfl, rfl⟩, by simp [Method.startState, Method.lbfgs]⟩
  have hinStep := run_inStep hrun hrun' Method.lbfgs_inStep_steepest ⟨fun _ => rfl, fun _ => rfl⟩
    hstart rfl rfl
  have hplain := run_map_withNote_none hrun' (by decide)
  constructor
  · intro k hskipped
    rw [(hinStep k hskipped).1, List.map_take, hplain]
  · intro hskipped
    obtain ⟨hiterations, htermination, hevaluations⟩ := (hinStep trace.iterations.length
      fun r hr => hskipped r (List.mem_of_mem_take hr)).2 (.inl (Nat.le_succ _))
    have halgorithm' := ((run_eq_ok_iff ..).mp hrun').2.1
    rw [hplain] at hiterations
    cases trace'
    simp_all only

/-- The same function from a point between two of its minima. -/
def ridgeStartOptions : Options Float :=
  { camelOptions with initialPoint := [1.05, -0.5] }

/-- Two steps show no positive curvature, and the third one stores a pair. -/
theorem camel_run_begins_steepest : ∃ trace trace',
    run .lbfgs AnalyticProblem.threeHumpCamel.objective ridgeStartOptions = .ok trace ∧
      run .gradientDescentLineSearch AnalyticProblem.threeHumpCamel.objective ridgeStartOptions =
        .ok trace' ∧
      trace.iterations.map (·.hasStored) = [false, false, true, true] ∧
      (trace.iterations.take 3).map (·.withNote none) = trace'.iterations.take 3 := by
  obtain ⟨hexists, hlaw⟩ := lbfgs_without_curvature_is_steepest
    AnalyticProblem.threeHumpCamel.objective ridgeStartOptions (by decide +kernel)
  obtain ⟨trace, trace', hrun, hrun'⟩ := hexists ⟨fun _ => by decide, fun _ => by decide⟩
  have htaken := (hlaw trace trace' hrun hrun').1
  obtain ⟨_, heval, hstored⟩ : ∃ trace,
      run .lbfgs AnalyticProblem.threeHumpCamel.objective ridgeStartOptions = .ok trace ∧
        trace.iterations.map (·.hasStored) = [false, false, true, true] :=
    exists_trace_of_toOption _ (by decide +kernel)
  obtain rfl := Except.ok.inj (hrun.symm.trans heval)
  refine ⟨trace, trace', hrun, hrun', hstored, htaken 2 fun r hr => ?_⟩
  have hfirst := List.mem_map_of_mem (f := (·.hasStored)) hr
  rw [List.map_take, hstored] at hfirst
  simpa using hfirst

end Downhill
