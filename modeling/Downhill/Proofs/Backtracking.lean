import Mathlib.Order.Bounds.Basic
import Downhill.Proofs.EvaluationAccounts

/-!
# The first acceptable step

Backtracking tries the steps of a sequence one after the other. It ends with the first one that is
acceptable, or with the last one that it has trials for, and its log is the list of all trials up to
that one. Every record of a search takes the step of the last trial in its log. None of this asks
anything of the arithmetic: a loss that is no number is never acceptable. What can go wrong is the
first thing that a search does, to set aside the room for all trials that it may make.
-/

namespace Downhill

variable {F : Type} [Arithmetic F]

namespace ArmijoParams

/-- The step of trial `k`, counted from zero. -/
def step (params : ArmijoParams F) : Nat → F
  | 0 => params.alphaInit
  | k + 1 => params.step k * params.rho

/-- Each trial takes the room of four numbers, and together they have to be smaller than half of the
address space. -/
lemma hasRoom_iff (params : ArmijoParams F) :
    params.hasRoom = true ↔ ∀ width ∈ Arithmetic.width F, params.maxTrials * (4 * width) < 2 ^ 63 := by
  unfold hasRoom canReserve LineSearchTrial.bytes
  cases Arithmetic.width F <;> simp [UInt64.size]

lemma hasRoom_eq_false_iff (params : ArmijoParams F) :
    params.hasRoom = false ↔ ∃ width ∈ Arithmetic.width F,
      2 ^ 63 ≤ params.maxTrials * (4 * width) := by
  rw [← Bool.not_eq_true, hasRoom_iff]
  simp only [not_forall, Nat.not_lt, exists_prop]

variable (params : ArmijoParams F) (obj : Objective F) (w p : List F) (value : F)
  (gradient : List F)

/-- The value after step `k` from `w` along `p` reaches the share of the predicted change that is
asked for. -/
def Accepts (k : Nat) : Prop :=
  obj.value (along w (params.step k) p) ≤ value + params.c1 * params.step k * dot gradient p

instance (k : Nat) : Decidable (params.Accepts obj w p value gradient k) :=
  inferInstanceAs (Decidable (_ ≤ _))

def trialAt (k : Nat) : LineSearchTrial F where
  alpha := params.step k
  loss := obj.value (along w (params.step k) p)
  threshold := value + params.c1 * params.step k * dot gradient p
  satisfied := params.Accepts obj w p value gradient k

/-- Trial `m` is the first acceptable one, or the last one if there is none. -/
def EndsAt (m : Nat) : Prop :=
  IsLeast {k | k < max 1 params.maxTrials ∧ params.Accepts obj w p value gradient k} m ∨
    (∀ k < max 1 params.maxTrials, ¬ params.Accepts obj w p value gradient k) ∧
      m = max 1 params.maxTrials - 1

/-- The answer of a search that ends with trial `m`. -/
def answerAt (m : Nat) : LineSearchResult F where
  trials := (List.range (m + 1)).map (params.trialAt obj w p value gradient)
  satisfied := params.Accepts obj w p value gradient m
  alpha := params.step m
  point := along w (params.step m) p
  value := obj.value (along w (params.step m) p)

lemma result_trialAt (m : Nat) :
    (SearchLine.ofGradient w p value gradient).result (params.trialAt obj w p value gradient m)
        ((List.range m).map (params.trialAt obj w p value gradient)).reverse =
      params.answerAt obj w p value gradient m := by
  simp [SearchLine.result, SearchLine.point, SearchLine.ofGradient, answerAt, trialAt,
    List.range_succ]

/-- A search that has missed the first `k` steps and may try `more` steps after the next one. -/
lemma searchPlain_step (more k : Nat) :
    ∃ m, k ≤ m ∧ m ≤ k + more ∧
      (∀ j, k ≤ j → j < m → ¬ params.Accepts obj w p value gradient j) ∧
      (params.Accepts obj w p value gradient m ∨ m = k + more) ∧
      SearchLine.searchPlain obj (.ofGradient w p value gradient) params more (params.step k)
        ((List.range k).map (params.trialAt obj w p value gradient)).reverse =
          params.answerAt obj w p value gradient m := by
  induction more generalizing k with
  | zero => exact ⟨k, le_rfl, le_rfl, fun j hj hlt => by omega, .inr rfl, result_trialAt ..⟩
  | succ more ih =>
    rw [SearchLine.searchPlain_succ]
    by_cases haccepts : params.Accepts obj w p value gradient k
    · refine ⟨k, le_rfl, by omega, fun j hj hlt => by omega, .inl haccepts, ?_⟩
      rw [← result_trialAt]
      exact if_pos (decide_eq_true haccepts)
    · obtain ⟨m, hk, hm, hmissed, hends, hfound⟩ := ih (k + 1)
      refine ⟨m, by omega, by omega, ?_, hends.imp_right fun h => by omega, ?_⟩
      · intro j hj hlt
        rcases hj.eq_or_lt with rfl | hj
        · exact haccepts
        · exact hmissed j hj hlt
      · -- The missed trial goes on top of the earlier ones.
        rw [List.range_succ, List.map_append, List.reverse_append] at hfound
        refine Eq.trans ?_ hfound
        exact if_neg fun h => haccepts (of_decide_eq_true h)

lemma exists_endsAt_searchAlong :
    ∃ m, params.EndsAt obj w p value gradient m ∧
      searchAlong obj w p value gradient params = params.answerAt obj w p value gradient m := by
  obtain ⟨m, -, hm, hmissed, hends, hfound⟩ :=
    params.searchPlain_step obj w p value gradient (params.maxTrials - 1) 0
  refine ⟨m, ?_, hfound⟩
  by_cases haccepts : params.Accepts obj w p value gradient m
  · left
    refine ⟨⟨by omega, haccepts⟩, ?_⟩
    rintro k ⟨-, hk⟩
    by_contra hlt
    exact hmissed k (Nat.zero_le k) (not_le.mp hlt) hk
  · right
    have hlast : m = 0 + (params.maxTrials - 1) := hends.resolve_left haccepts
    refine ⟨fun k hk => ?_, by omega⟩
    rcases Nat.lt_or_ge k m with hlt | hge
    · exact hmissed k (Nat.zero_le k) hlt
    · obtain rfl : k = m := by omega
      exact haccepts

variable {params obj w p value gradient}

lemma EndsAt.not_accepts {m k : Nat} (h : params.EndsAt obj w p value gradient m) (hk : k < m) :
    ¬ params.Accepts obj w p value gradient k := by
  intro haccepts
  rcases h with hleast | ⟨hnone, rfl⟩
  · exact hk.not_ge (hleast.2 ⟨hk.trans hleast.1.1, haccepts⟩)
  · exact hnone k (by omega) haccepts

end ArmijoParams

/-- The step and the new value of a record are those of the last trial in the log of its search, and
every trial before was a miss. -/
structure IterationRecord.TakesLastTrial (r : IterationRecord F) (log : LineSearchLog F) : Prop where
  last : ∃ trial, log.trials.getLast? = some trial ∧ r.stepSize = trial.alpha ∧
    r.newLoss = trial.loss ∧ log.satisfied = trial.satisfied
  missed : ∀ trial ∈ log.trials.dropLast,
    trial.satisfied = false ∧ ¬ trial.loss ≤ trial.threshold

lemma ArmijoParams.EndsAt.takesLastTrial {params : ArmijoParams F} {obj : Objective F}
    {w p : List F} {value : F} {gradient : List F} {m : Nat}
    (h : params.EndsAt obj w p value gradient m) {r : IterationRecord F}
    (hsize : r.stepSize = (params.answerAt obj w p value gradient m).alpha)
    (hvalue : r.newLoss = (params.answerAt obj w p value gradient m).value) :
    r.TakesLastTrial (params.answerAt obj w p value gradient m).toLineSearchLog := by
  have htrials : (params.answerAt obj w p value gradient m).trials =
      (List.range m).map (params.trialAt obj w p value gradient) ++
        [params.trialAt obj w p value gradient m] := by
    rw [answerAt, List.range_succ, List.map_append, List.map_singleton]
  refine ⟨⟨params.trialAt obj w p value gradient m, ?_, hsize, hvalue, rfl⟩, fun trial htrial => ?_⟩
  · rw [htrials, List.getLast?_concat]
  · rw [htrials, List.dropLast_concat] at htrial
    obtain ⟨k, hk, rfl⟩ := List.mem_map.mp htrial
    have hmissed := h.not_accepts (List.mem_range.mp hk)
    exact ⟨decide_eq_false hmissed, hmissed⟩

/-- What a record of a search shows is the answer of backtracking along its own direction. -/
lemma Algorithm.steps_search {algorithm : Algorithm} {obj : Objective F} {options : Options F}
    {s t : RunState F (algorithm.method obj options).1} {r : IterationRecord F}
    (hroom : options.HasRoom algorithm) (h : (algorithm.method obj options).2.Steps obj s r t)
    {log : LineSearchLog F} (hlog : r.lineSearch = some log) :
    let found := searchAlong obj r.wOld r.direction r.loss r.gradient options.armijo
    backtrack obj r.wOld r.direction r.loss r.gradient options.armijo = some found ∧
      log = found.toLineSearchLog ∧ r.stepSize = found.alpha ∧ r.newLoss = found.value := by
  rcases algorithm.rule_eq obj options with ⟨huses, hrule⟩ | ⟨-, alpha, hrule⟩
  · obtain ⟨hsize, hvalue, hsearch⟩ := h.armijo hrule
    refine ⟨?_, Option.some_inj.mp (hlog.symm.trans hsearch), hsize, hvalue⟩
    rw [backtrack_eq, if_pos (hroom.trials huses)]
  · have hnone := (h.fixed hrule).2
    rw [hlog] at hnone
    cases hnone

/-- Where there is room for its trials, backtracking ends with the first acceptable step, or with the
last one that it may try, after one trial for each step up to there. Where there is none it has no
answer. Every record of a search takes the step that backtracking ends with, and no trial before it
was acceptable. -/
theorem backtrack_takes_first_acceptable (obj : Objective F) :
    (∀ (w p : List F) (value : F) (gradient : List F) (params : ArmijoParams F),
      ((∀ width ∈ Arithmetic.width F, params.maxTrials * (4 * width) < 2 ^ 63) →
        ∃ m, params.EndsAt obj w p value gradient m ∧
          backtrack obj w p value gradient params =
            some (params.answerAt obj w p value gradient m)) ∧
      ((∃ width ∈ Arithmetic.width F, 2 ^ 63 ≤ params.maxTrials * (4 * width)) →
        backtrack obj w p value gradient params = none)) ∧
    ∀ (algorithm : Algorithm) (options : Options F) (trace : Trace F),
      run algorithm obj options = .ok trace →
        ∀ r ∈ trace.iterations, ∀ log, r.lineSearch = some log →
          ∃ found, backtrack obj r.wOld r.direction r.loss r.gradient options.armijo = some found ∧
            log = found.toLineSearchLog ∧ r.TakesLastTrial log := by
  constructor
  · intro w p value gradient params
    rw [← params.hasRoom_iff, ← params.hasRoom_eq_false_iff, backtrack_eq]
    obtain ⟨m, hends, hfound⟩ := params.exists_endsAt_searchAlong obj w p value gradient
    refine ⟨fun hroom => ⟨m, hends, ?_⟩, fun hroom => ?_⟩
    · rw [if_pos hroom, hfound]
    · rw [if_neg (Bool.not_eq_true _ ▸ hroom)]
  · intro algorithm options trace h r hr log hlog
    obtain ⟨-, -, hroom, -⟩ := (run_eq_ok_iff algorithm obj options trace).mp h
    obtain ⟨states, -, -, hist⟩ := run_history h
    obtain ⟨i, hi, rfl⟩ := List.mem_iff_getElem.mp hr
    obtain ⟨hsearch, rfl, hsize, hvalue⟩ := Algorithm.steps_search hroom (hist.steps i hi) hlog
    refine ⟨_, hsearch, rfl, ?_⟩
    obtain ⟨m, hends, hfound⟩ := options.armijo.exists_endsAt_searchAlong obj
      trace.iterations[i].wOld trace.iterations[i].direction trace.iterations[i].loss
      trace.iterations[i].gradient
    rw [hfound] at hsize hvalue ⊢
    exact hends.takesLastTrial hsize hvalue

/-- From the start point the first step is too long, and the second one is taken. -/
theorem camel_run_takes_second_trial : ∃ trace,
    run .lbfgs AnalyticProblem.threeHumpCamel.objective { camelOptions with maxIter := 1 } =
      .ok trace ∧
      ∃ r ∈ trace.iterations, ∃ log, r.lineSearch = some log ∧ r.TakesLastTrial log ∧
        camelOptions.armijo.EndsAt AnalyticProblem.threeHumpCamel.objective r.wOld r.direction
          r.loss r.gradient 1 := by
  obtain ⟨trace, hrun, htrials⟩ : ∃ trace,
      run .lbfgs AnalyticProblem.threeHumpCamel.objective { camelOptions with maxIter := 1 } =
        .ok trace ∧
        trace.iterations.head?.map (fun r => r.lineSearch.map (·.trials.length)) = some (some 2) :=
    exists_trace_of_toOption _ (by decide +kernel)
  obtain ⟨r, hfirst, hsearch⟩ := Option.map_eq_some_iff.mp htrials
  obtain ⟨log, hlog, hlength⟩ := Option.map_eq_some_iff.mp hsearch
  have hr : r ∈ trace.iterations := List.mem_of_head? hfirst
  obtain ⟨hlaw, hrecords⟩ :=
    backtrack_takes_first_acceptable (AnalyticProblem.threeHumpCamel.objective (F := Float))
  obtain ⟨found, hfound, rfl, htaken⟩ := hrecords _ _ trace hrun r hr log hlog
  have hroom : ∀ width ∈ Arithmetic.width Float,
      camelOptions.armijo.maxTrials * (4 * width) < 2 ^ 63 := by
    rintro _ ⟨⟩
    decide
  obtain ⟨m, hends, hanswer⟩ := (hlaw r.wOld r.direction r.loss r.gradient _).1 hroom
  obtain rfl := Option.some_inj.mp (hfound.symm.trans hanswer)
  -- Two trials are those of the steps zero and one.
  obtain rfl : m = 1 := by
    rw [ArmijoParams.answerAt, List.length_map, List.length_range] at hlength
    omega
  exact ⟨trace, hrun, r, hr, _, hlog, htaken, hends⟩

/-- The parabola `x² / 2`. -/
def bowl : QuadraticForm Float :=
  ⟨[[1]], [0], by simp, rfl⟩

/-- The usual search with the largest limit on its trials. -/
def patientSearch : ArmijoParams Float :=
  { ArmijoParams.standard with maxTrials := 2 ^ 64 - 1 }

/-- The first step leads to the minimum and would be accepted, but it is never tried. -/
theorem patient_search_is_not_made :
    patientSearch.Accepts bowl.objective [1] [-1] (bowl.objective.value [1])
        (bowl.objective.gradient [1]) 0 ∧
      backtrack bowl.objective [1] [-1] (bowl.objective.value [1]) (bowl.objective.gradient [1])
        patientSearch = none := by
  have hroom : patientSearch.hasRoom = false := by decide
  refine ⟨by decide +kernel, ?_⟩
  rw [backtrack_eq, if_neg (Bool.not_eq_true _ ▸ hroom)]

end Downhill
