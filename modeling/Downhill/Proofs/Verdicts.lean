import Mathlib.Logic.Basic
import Mathlib.Tactic.SplitIfs
import Downhill.Comparison.Verdict

/-!
# The answers of a comparison

The checks of a comparison run one after the other. Seen from outside, it fails exactly if the runs
are not compatible, and it passes if no difference between compatible runs is noticed, or if neither
run converges on the problem where that is expected. This holds in any arithmetic; in one with
numbers that compare with nothing, a check that does not object has not compared anything.
-/

namespace Downhill

namespace Verdict

variable {F : Type} [Arithmetic F] {a b : RunSummary F} {problem : String}

/-- Neither run converges, and on this problem that is expected. -/
def DivergeAsExpected (a b : RunSummary F) (problem : String) : Prop :=
  problem = AnalyticProblem.saddle.name ∧ a.converged = false ∧ b.converged = false

/-- Two runs that converge without a check that finds them to disagree. -/
structure AreCompatible (a b : RunSummary F) : Prop where
  converged : a.converged = true ∧ b.converged = true
  finite : Arithmetic.isFinite a.finalLoss = true ∧ Arithmetic.isFinite b.finalLoss = true
  loss : ¬ 0.10 < relativeLoss a b
  length : a.finalPoint.length = b.finalPoint.length
  point : ¬ 1 < pointDistance a b

lemma differences_eq_nil_iff : differences a b = [] ↔ ¬ 0.01 < relativeLoss a b ∧
    ¬ (0 < a.iterations ∧ 0 < b.iterations ∧ 3.0 < iterationRatio a b) ∧
      ¬ 0.1 < pointDistance a b := by
  simp only [differences, List.append_eq_nil_iff, ite_eq_right_iff, List.cons_ne_nil, imp_false,
    and_assoc]

/-- What a comparison can answer, and why. -/
inductive Answers (a b : RunSummary F) (problem : String) : ComparisonStatus → Prop
  | expected : DivergeAsExpected a b problem → Answers a b problem .pass
  | unexpected : ¬ DivergeAsExpected a b problem → a.converged = false → b.converged = false →
      Answers a b problem .suspicious
  | disagreement : ¬ (a.converged = false ∧ b.converged = false) → ¬ AreCompatible a b →
      Answers a b problem .fail
  | agreement : AreCompatible a b → differences a b = [] → Answers a b problem .pass
  | difference : AreCompatible a b → differences a b ≠ [] → Answers a b problem .suspicious

lemma answers_ofRuns (a b : RunSummary F) (problem : String) :
    Answers a b problem (ofRuns a b problem).status := by
  have hexpected_iff : DivergeAsExpected a b problem ↔
      problem = AnalyticProblem.saddle.name ∧ ¬ a.converged ∧ ¬ b.converged := by
    simp only [DivergeAsExpected, Bool.not_eq_true]
  unfold ofRuns
  split_ifs with hexpected hconverged ha hfinite hloss hlength hpoint
  · exact .expected (hexpected_iff.mpr hexpected)
  · refine .disagreement ?_ fun h => hconverged (h.converged.1.trans h.converged.2.symm)
    rintro ⟨ha, hb⟩
    exact hconverged (ha.trans hb.symm)
  rotate_right
  · have ha : a.converged = false := Bool.eq_false_iff.mpr ha
    exact .unexpected (hexpected_iff.not.mpr hexpected) ha (not_not.mp hconverged ▸ ha)
  all_goals
    -- In the other cases both runs have converged.
    have hb : b.converged = true := not_not.mp hconverged ▸ ha
    have hsome : ¬ (a.converged = false ∧ b.converged = false) := fun h => by simp [ha] at h
  · refine .disagreement hsome fun h => ?_
    exact hfinite.elim (· h.finite.1) (· h.finite.2)
  · exact .disagreement hsome fun h => h.loss hloss
  · exact .disagreement hsome fun h => hlength h.length
  · exact .disagreement hsome fun h => h.point hpoint
  · have hcompatible : AreCompatible a b :=
      ⟨⟨ha, hb⟩, by simpa only [not_or, not_not] using hfinite, hloss, not_not.mp hlength, hpoint⟩
    cases hdifferences : differences a b with
    | nil => exact .agreement hcompatible hdifferences
    | cons => exact .difference hcompatible (hdifferences ▸ List.cons_ne_nil _ _)

lemma AreCompatible.not_diverged (h : AreCompatible a b) :
    ¬ (a.converged = false ∧ b.converged = false) :=
  fun hdiverged => Bool.false_ne_true (hdiverged.1.symm.trans h.converged.1)

lemma status_eq_pass_iff : (ofRuns a b problem).status = .pass ↔
    DivergeAsExpected a b problem ∨ AreCompatible a b ∧ differences a b = [] := by
  have hanswers := answers_ofRuns a b problem
  generalize (ofRuns a b problem).status = s at hanswers
  cases hanswers with
  | expected h => simp [h]
  | unexpected h ha hb =>
    have hnot : ¬ AreCompatible a b := fun hcompatible => hcompatible.not_diverged ⟨ha, hb⟩
    simp [h, hnot]
  | disagreement hsome h =>
    have hnot : ¬ DivergeAsExpected a b problem := fun hexpected => hsome hexpected.2
    simp [h, hnot]
  | agreement h hnil => simp [h, hnil]
  | difference h hne =>
    have hnot : ¬ DivergeAsExpected a b problem := fun hexpected => h.not_diverged hexpected.2
    simp [hnot, hne]

lemma status_eq_fail_iff : (ofRuns a b problem).status = .fail ↔
    ¬ (a.converged = false ∧ b.converged = false) ∧ ¬ AreCompatible a b := by
  have hanswers := answers_ofRuns a b problem
  generalize (ofRuns a b problem).status = s at hanswers
  cases hanswers with
  | expected h => simp [h.2]
  | unexpected h ha hb => simp [ha, hb]
  | disagreement hsome h => simp [h, hsome]
  | agreement h hnil => simp [h]
  | difference h hne => simp [h]

end Verdict

end Downhill
