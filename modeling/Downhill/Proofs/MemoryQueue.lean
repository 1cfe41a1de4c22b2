import Mathlib.Data.List.DropRight
import Downhill.Proofs.RecordChain
import Downhill.Proofs.TwoLoopStages

/-!
# The limited memory as a queue

The ring of the limited memory method is filled, overwritten at a moving head and read back from
there, and between two pairs that it takes in any number of pairs may be dropped. Over a whole run
it is a queue that forgets: before every iteration it holds the last pairs that were stored, as many
as there is room for, and the direction is the two-loop product over exactly these.
-/

namespace Downhill

variable {F : Type}

/-- A queue that keeps its last `limit` items forgets the same items when the next one comes. -/
lemma drop_rtake_append {α : Type} (items : List α) (item : α) (limit : Nat) :
    (items.rtake limit ++ [item]).drop ((items.rtake limit).length + 1 - limit) =
      (items ++ [item]).rtake limit := by
  have happend : items.rtake limit ++ [item] =
      (items ++ [item]).drop (items.length - limit) := by
    rw [List.drop_append_of_le_length (Nat.sub_le ..), List.rtake]
  rw [happend, List.drop_drop, List.rtake, List.rtake, List.length_drop, List.length_append,
    List.length_singleton]
  congr 1
  omega

lemma lbfgsHeading_twoLoop_eq_none_iff [Arithmetic F] (pairs : List (CurvaturePair F))
    (gradient : List F) : (lbfgsHeading pairs gradient).twoLoop = none ↔ pairs = [] := by
  cases pairs <;> simp [lbfgsHeading]

namespace IterationRecord

variable [Arithmetic F]

def pair (obj : Objective F) (r : IterationRecord F) : CurvaturePair F :=
  let s := sub r.wNew r.wOld
  let y := sub (obj.gradient r.wNew) (obj.gradient r.wOld)
  ⟨s, y, 1 / dot s y⟩

omit [Arithmetic F] in
/-- Whether a record says that the pair of its step was stored. -/
def hasStored (r : IterationRecord F) : Bool :=
  match r.lbfgs with
  | some note => note.update ≠ .skippedCurvature
  | none => false

end IterationRecord

variable [Arithmetic F]

/-- The pairs that the records say were stored, in the order of the records. -/
def storedPairs (obj : Objective F) (records : List (IterationRecord F)) :
    List (CurvaturePair F) :=
  (records.filter (·.hasStored)).map (·.pair obj)

lemma storedPairs_append_singleton (obj : Objective F) (records : List (IterationRecord F))
    (r : IterationRecord F) :
    storedPairs obj (records ++ [r]) =
      if r.hasStored then storedPairs obj records ++ [r.pair obj] else storedPairs obj records := by
  by_cases h : r.hasStored <;> simp [storedPairs, List.filter_append, h]

/-- What the note in a record says, where `stored` are all pairs stored by earlier records. -/
structure IterationRecord.QueueLaw (obj : Objective F) (limit : Nat)
    (stored : List (CurvaturePair F)) (r : IterationRecord F) (note : LbfgsDiagnostics F) :
    Prop where
  skipped : note.update = .skippedCurvature ↔
    ¬ Arithmetic.epsilon * norm (r.pair obj).s * norm (r.pair obj).y <
      dot (r.pair obj).s (r.pair obj).y
  kept : note.update = .stored ↔ note.update ≠ .skippedCurvature ∧ stored.length < limit
  evicting : note.update = .storedEvictingOldest ↔
    note.update ≠ .skippedCurvature ∧ ¬ stored.length < limit
  memory : note.memory = stored.rtake limit
  twoLoop_eq_none : note.twoLoop = none ↔ note.memory = []
  steepest : note.memory = [] → r.direction = neg r.gradient
  product : ∀ newest older, note.memory.reverse = newest :: older →
    let (product, stages) := TwoLoop.recursion r.gradient newest older
    r.direction = neg product ∧ note.twoLoop = some stages ∧
      stages.backward.map (·.pair) = (List.range note.memory.length).reverse ∧
      stages.forward.map (·.pair) = List.range note.memory.length ∧
      stages.forward.getLast?.map (·.vector) = some product

namespace CurvatureMemory

variable (m : CurvatureMemory F) (s y : List F)

lemma hasCurvature_iff :
    hasCurvature s y = true ↔ Arithmetic.epsilon * norm s * norm y < dot s y := by
  simp [hasCurvature]

lemma capacity_learn : (m.learn s y).2.capacity = m.capacity := by
  unfold learn
  split
  · exact m.capacity_push _
  · rfl

/-- What becomes of a pair is decided by its curvature and then by the room in the memory. -/
lemma learn_fst :
    (m.learn s y).1 =
      if Arithmetic.epsilon * norm s * norm y < dot s y then
        if m.toList.length < m.capacity then .stored else .storedEvictingOldest
      else .skippedCurvature := by
  unfold learn
  simp only [hasCurvature_iff]
  split
  · exact m.push_fst _
  · rfl

lemma learn_fst_eq_skipped_iff :
    (m.learn s y).1 = .skippedCurvature ↔ ¬ Arithmetic.epsilon * norm s * norm y < dot s y := by
  rw [learn_fst]
  split_ifs <;> simp_all

lemma learn_fst_eq_stored_iff :
    (m.learn s y).1 = .stored ↔
      (m.learn s y).1 ≠ .skippedCurvature ∧ m.toList.length < m.capacity := by
  rw [learn_fst]
  split_ifs <;> simp_all

lemma learn_fst_eq_evicting_iff :
    (m.learn s y).1 = .storedEvictingOldest ↔
      (m.learn s y).1 ≠ .skippedCurvature ∧ ¬ m.toList.length < m.capacity := by
  rw [learn_fst]
  split_ifs <;> simp_all

lemma toList_learn :
    (m.learn s y).2.toList =
      if (m.learn s y).1 ≠ .skippedCurvature then
        (m.toList ++ [CurvaturePair.mk s y (1 / dot s y)]).drop (m.toList.length + 1 - m.capacity)
      else m.toList := by
  have hskip : (m.learn s y).1 ≠ .skippedCurvature ↔ hasCurvature s y = true := by
    rw [Ne, learn_fst_eq_skipped_iff, not_not, hasCurvature_iff]
  simp only [hskip]
  unfold learn
  split
  · exact m.toList_push _
  · rfl

end CurvatureMemory

namespace Method

variable {limit : Nat} {params : ArmijoParams F} {obj : Objective F}
  {criteria : StoppingCriteria F} {s t : RunState F (CurvatureMemory F)}
  {record : IterationRecord F}

lemma lbfgs_steps (h : (Method.lbfgs limit params).Steps obj s record t)
    (hs : s.current.Faithful obj) :
    let heading := lbfgsHeading s.memory.toList.reverse record.gradient
    let learned := s.memory.learn (record.pair obj).s (record.pair obj).y
    record.direction = heading.direction ∧
      record.lbfgs = some ⟨s.memory.toList, heading.twoLoop, learned.1⟩ ∧
      t.memory = learned.2 := by
  obtain ⟨heading, counts, hhead, hout⟩ := h
  rw [lbfgs_heading_run] at hhead
  cases hhead
  obtain ⟨index, memory, ⟨point, loss, gradient⟩, counts⟩ := s
  obtain rfl : gradient = obj.gradient point := hs.gradient
  cases hout
  exact ⟨rfl, rfl, rfl⟩

lemma lbfgs_steps_hasStored (h : (Method.lbfgs limit params).Steps obj s record t)
    (hs : s.current.Faithful obj) :
    record.hasStored =
      decide ((s.memory.learn (record.pair obj).s (record.pair obj).y).1 ≠ .skippedCurvature) := by
  simp only [IterationRecord.hasStored, (lbfgs_steps h hs).2.1]

/-- The queue before an iteration, given all pairs stored so far. -/
def HoldsLast (limit : Nat) (stored : List (CurvaturePair F)) (memory : CurvatureMemory F) : Prop :=
  memory.capacity = limit ∧ memory.toList = stored.rtake limit

/-- An iteration keeps the queue in step with the pairs that the records call stored. -/
lemma lbfgs_steps_holdsLast (h : (Method.lbfgs limit params).Steps obj s record t)
    (hs : s.current.Faithful obj) (records : List (IterationRecord F))
    (hqueue : HoldsLast limit (storedPairs obj records) s.memory) :
    HoldsLast limit (storedPairs obj (records ++ [record])) t.memory := by
  obtain ⟨hcapacity, hlist⟩ := hqueue
  rw [(lbfgs_steps h hs).2.2, storedPairs_append_singleton, lbfgs_steps_hasStored h hs]
  refine ⟨by rw [CurvatureMemory.capacity_learn, hcapacity], ?_⟩
  rw [CurvatureMemory.toList_learn, hcapacity, hlist]
  simp only [decide_eq_true_eq]
  split_ifs
  · exact drop_rtake_append _ _ _
  · rfl

lemma lbfgs_history_holdsLast {states : Nat → RunState F (CurvatureMemory F)}
    {records : List (IterationRecord F)} {reason : TerminationReason} {options : Options F}
    (h : (Method.lbfgs limit params).History obj criteria states records reason)
    (hstart : states 0 = (Method.lbfgs limit params).startState obj options) :
    ∀ i, i ≤ records.length →
      HoldsLast limit (storedPairs obj (records.take i)) (states i).memory := by
  have hfaithful := h.faithful (by rw [hstart]; exact ⟨rfl, rfl⟩)
  apply h.invariant
    (fun i s => HoldsLast limit (storedPairs obj (records.take i)) s.memory)
  · rw [hstart]
    exact ⟨rfl, (CurvatureMemory.toList_empty limit).trans (List.rtake_nil limit).symm⟩
  · intro i hi hqueue hstep
    rw [← List.take_append_getElem hi]
    exact lbfgs_steps_holdsLast hstep (hfaithful i (Nat.le_of_lt hi)) _ hqueue

lemma lbfgs_steps_queueLaw (h : (Method.lbfgs limit params).Steps obj s record t)
    (hs : s.current.Faithful obj) (stored : List (CurvaturePair F))
    (hqueue : HoldsLast limit stored s.memory) :
    ∃ note, record.lbfgs = some note ∧ record.QueueLaw obj limit stored note := by
  obtain ⟨hcapacity, hlist⟩ := hqueue
  obtain ⟨hdirection, hnote, -⟩ := lbfgs_steps h hs
  have hroom : s.memory.toList.length < s.memory.capacity ↔ stored.length < limit := by
    rw [hcapacity, hlist, List.rtake, List.length_drop]
    omega
  refine ⟨_, hnote, CurvatureMemory.learn_fst_eq_skipped_iff .., ?_, ?_, hlist, ?_, ?_, ?_⟩
  · rw [← hroom]
    exact CurvatureMemory.learn_fst_eq_stored_iff ..
  · rw [← hroom]
    exact CurvatureMemory.learn_fst_eq_evicting_iff ..
  · rw [lbfgsHeading_twoLoop_eq_none_iff, List.reverse_eq_nil_iff]
  · intro hnil
    rw [hdirection, show s.memory.toList = [] from hnil]
    rfl
  · intro newest older hcons
    have hlength : s.memory.toList.length = (newest :: older).length := by
      rw [← List.length_reverse, hcons]
    rw [hlength]
    refine ⟨?_, ?_, TwoLoop.recursion_stages record.gradient newest older⟩
    · rw [hdirection, hcons]
      rfl
    · rw [hcons]
      rfl

end Method

/-- Before each iteration of a run of the limited memory method the memory is the queue of the last
`memory` stored pairs, and the direction is the two-loop product over it. -/
theorem lbfgs_run_queue (obj : Objective F) (options : Options F) (trace : Trace F)
    (h : run .lbfgs obj options = .ok trace) (i : Nat) (hi : i < trace.iterations.length) :
    ∃ note, trace.iterations[i].lbfgs = some note ∧
      trace.iterations[i].QueueLaw obj options.memory
        (storedPairs obj (trace.iterations.take i)) note := by
  obtain ⟨states, hstart, -, hist⟩ : ∃ states : Nat → RunState F (CurvatureMemory F),
      states 0 = (Method.lbfgs options.memory options.armijo).startState obj options ∧
      (states trace.iterations.length).counts = trace.evaluations ∧
      (Method.lbfgs options.memory options.armijo).History obj options.criteria states
        trace.iterations trace.termination := run_history h
  have hfaithful := hist.faithful (by rw [hstart]; exact ⟨rfl, rfl⟩) i (Nat.le_of_lt hi)
  have hqueue := Method.lbfgs_history_holdsLast hist hstart i (Nat.le_of_lt hi)
  exact Method.lbfgs_steps_queueLaw (hist.steps i hi) hfaithful _ hqueue

theorem camel_run_queue : ∃ trace,
    run .lbfgs AnalyticProblem.threeHumpCamel.objective camelOptions = .ok trace ∧
      ∃ hi : 3 < trace.iterations.length, ∃ note, trace.iterations[3].lbfgs = some note ∧
        note.update = .skippedCurvature ∧
        trace.iterations[3].QueueLaw AnalyticProblem.threeHumpCamel.objective 1
          (storedPairs AnalyticProblem.threeHumpCamel.objective (trace.iterations.take 3)) note := by
  obtain ⟨trace, hrun, hupdates⟩ := camel_run
  have hi : 3 < trace.iterations.length := by
    have hlength := congrArg List.length hupdates
    simp only [List.length_map, List.length_cons, List.length_nil] at hlength
    omega
  obtain ⟨note, hnote, hlaw⟩ := lbfgs_run_queue _ _ trace hrun 3 hi
  refine ⟨trace, hrun, hi, note, hnote, ?_, hlaw⟩
  have hthird := congrArg (·[3]?) hupdates
  simpa [hi, hnote] using hthird

end Downhill
