import Downhill.Proofs.CacheRecency
import Downhill.Proofs.KeySeparation
import Downhill.Proofs.RecordChain

/-!
# A cache changes no answer

A cache is told the name of a problem and not what the problem is. As long as a name always comes
with the same objective, an answer of the cache is the answer of the run itself: every trace that is
kept is the trace of a run with its key, and only one run has that key.
-/

namespace Downhill
namespace TraceCache

variable {F : Type} [Binary F]

/-- A call by someone who has one objective for each name, and keeps no traces of their own. -/
inductive Request (F : Type) where
  | getOrRun (problem : String) (algorithm : Algorithm) (options : Options F)
  | get (key : TraceKey)
  | clear

omit [Binary F] in
def Request.call (objectives : String → Objective F) : Request F → Call F
  | getOrRun problem algorithm options =>
    .getOrRun problem algorithm (objectives problem) options
  | get key => .get key
  | clear => .clear

/-- Every trace in the cache is the trace of a run with its key. -/
def Truthful (objectives : String → Objective F) (c : TraceCache F) : Prop :=
  ∀ key trace, c.entries[key]? = some trace → ∃ problem algorithm options,
    key = TraceKey.ofOptions problem algorithm options ∧
      run algorithm (objectives problem) options = .ok trace

omit [Binary F] in
lemma getElem?_evict {c : TraceCache F} {key : TraceKey} {trace : Trace F}
    (h : c.evict.entries[key]? = some trace) : c.entries[key]? = some trace := by
  unfold evict at h
  split at h
  · split at h
    · rw [Std.HashMap.getElem?_erase] at h
      split at h
      · cases h
      · exact h
    · exact h
  · exact h

omit [Binary F] in
lemma eq_or_getElem?_of_insert {entries : Std.HashMap TraceKey (Trace F)} {key used : TraceKey}
    {trace new : Trace F} (h : (entries.insert used new)[key]? = some trace) :
    used = key ∧ new = trace ∨ entries[key]? = some trace := by
  rw [Std.HashMap.getElem?_insert] at h
  split at h
  · rename_i heq
    exact .inl ⟨beq_iff_eq.mp heq, Option.some_inj.mp h⟩
  · exact .inr h

omit [Binary F] in
/-- A trace that is found after a new one is kept was there before or is the new one. -/
lemma getElem?_insert {c : TraceCache F} {key used : TraceKey} {trace new : Trace F}
    (h : (c.insert used new).entries[key]? = some trace) :
    used = key ∧ new = trace ∨ c.entries[key]? = some trace := by
  unfold TraceCache.insert at h
  split_ifs at h
  · exact .inr h
  · exact eq_or_getElem?_of_insert h
  · exact (eq_or_getElem?_of_insert h).imp_right getElem?_evict

namespace Truthful

variable {objectives : String → Objective F} {c : TraceCache F}

lemma insert (h : Truthful objectives c) {problem : String} {algorithm : Algorithm}
    {options : Options F} {trace : Trace F}
    (hrun : run algorithm (objectives problem) options = .ok trace) :
    Truthful objectives (c.insert (TraceKey.ofOptions problem algorithm options) trace) := by
  intro key found hfound
  rcases getElem?_insert hfound with ⟨rfl, rfl⟩ | hold
  · exact ⟨problem, algorithm, options, rfl, hrun⟩
  · exact h key found hold

lemma apply (h : Truthful objectives c) (request : Request F) :
    Truthful objectives ((request.call objectives).apply c) := by
  cases request with
  | get key =>
    rw [Request.call, Call.apply]
    cases hk : c.entries[key]? with
    | none => rwa [get_of_none hk]
    | some trace => rwa [get_of_some hk]
  | getOrRun problem algorithm options =>
    rw [Request.call, Call.apply]
    cases hk : c.entries[TraceKey.ofOptions problem algorithm options]? with
    | some trace => rwa [getOrRun_of_some hk]
    | none =>
      cases hrun : run algorithm (objectives problem) options with
      | error e => rwa [getOrRun_of_error hk hrun]
      | ok trace =>
        rw [getOrRun_of_ok hk hrun]
        exact h.insert hrun
  | clear =>
    intro key trace hfound
    simp [Request.call, Call.apply, clear] at hfound

lemma replay (objectives : String → Objective F) (capacity : Nat) (requests : List (Request F)) :
    Truthful objectives (replay capacity (requests.map (·.call objectives))).1 := by
  induction requests using List.reverseRecOn with
  | nil =>
    intro key trace hfound
    simp [TraceCache.replay, empty] at hfound
  | append_singleton requests request ih =>
    rw [List.map_append, List.map_singleton, replay_concat]
    exact ih.apply request

end Truthful

/-- After any requests in which a name stands for one objective, the cache answers a request with
what the run would answer, and an error leaves no trace in it. -/
theorem getOrRun_answers_as_run [ExactBinary F] (objectives : String → Objective F)
    (capacity : Nat) (requests : List (Request F)) (problem : String) (algorithm : Algorithm)
    (options : Options F) :
    let c := (replay capacity (requests.map (·.call objectives))).1
    let outcome := c.getOrRun problem algorithm (objectives problem) options
    outcome.1.map Answer.trace = run algorithm (objectives problem) options ∧
      (∀ e, outcome.1 = .error e → outcome.2.entries = c.entries ∧ outcome.2.order = c.order) := by
  have htruthful := Truthful.replay objectives capacity requests
  generalize (replay capacity (requests.map (·.call objectives))).1 = c at htruthful
  dsimp only
  cases hk : c.entries[TraceKey.ofOptions problem algorithm options]? with
  | some trace =>
    obtain ⟨problem', algorithm', options', hkey, hrun⟩ := htruthful _ trace hk
    obtain ⟨rfl, rfl, rfl⟩ := TraceKey.ofOptions_inj.mp hkey
    rw [getOrRun_of_some hk, hrun]
    exact ⟨rfl, fun e h => by cases h⟩
  | none =>
    cases hrun : run algorithm (objectives problem) options with
    | error e =>
      rw [getOrRun_of_error hk hrun]
      exact ⟨rfl, fun _ _ => ⟨rfl, rfl⟩⟩
    | ok trace =>
      rw [getOrRun_of_ok hk hrun]
      exact ⟨rfl, fun e h => by cases h⟩

/-- A cache that has kept the trace of a request gives the same answer again. -/
theorem camel_answered_twice : ∃ trace,
    run .lbfgs AnalyticProblem.threeHumpCamel.objective camelOptions = .ok trace ∧
      let objectives := fun _ => AnalyticProblem.threeHumpCamel.objective
      let request := Request.getOrRun "camel" .lbfgs camelOptions
      let c := (replay 1 ([request].map (·.call objectives))).1
      c.size = 1 ∧
        (c.getOrRun "camel" .lbfgs (objectives "camel") camelOptions).1.map Answer.trace =
          .ok trace := by
  obtain ⟨trace, hrun, -⟩ := camel_run
  have hanswer := (getOrRun_answers_as_run (fun _ => AnalyticProblem.threeHumpCamel.objective) 1
    [.getOrRun "camel" .lbfgs camelOptions] "camel" .lbfgs camelOptions).1
  refine ⟨trace, hrun, ?_, hanswer.trans hrun⟩
  have hempty : (empty 1 : TraceCache Float).entries[TraceKey.ofOptions "camel" .lbfgs
      camelOptions]? = none := by simp [empty]
  change ((empty 1).getOrRun "camel" .lbfgs AnalyticProblem.threeHumpCamel.objective
    camelOptions).2.size = 1
  rw [getOrRun_of_ok hempty hrun]
  simp [insert, empty, evict, size, Std.HashMap.size_insert]

end TraceCache
end Downhill
