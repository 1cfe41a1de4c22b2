import Downhill.Proofs.RealMatrices
import Downhill.Proofs.Verdicts

/-!
# Comparing two runs in the other order

All that a comparison looks at is the same from both sides, up to the difference of the values,
which is taken relative to the first run. Within a hundredth of one value means well within a tenth
of the other one, so the order of the runs never turns a pass into a failure.
-/

namespace Downhill

lemma norm_neg_eq (v : List ℝ) : norm (neg v) = norm v := by
  obtain ⟨n, hn⟩ : ∃ n, v.length = n := ⟨_, rfl⟩
  obtain ⟨x, rfl⟩ := exists_eq_ofFn hn
  rw [norm, norm, neg_ofFn, dot_ofFn, dot_ofFn, neg_dotProduct_neg]

lemma sub_swap (u v : List ℝ) : sub v u = neg (sub u v) := by
  rw [neg, sub, sub, List.map_zipWith, List.zipWith_comm]
  simp only [neg_sub]

namespace Verdict

variable {a b : RunSummary ℝ} {problem : String}

lemma pointDistance_comm (a b : RunSummary ℝ) : pointDistance a b = pointDistance b a := by
  rw [pointDistance, pointDistance, sub_swap, norm_neg_eq]

lemma iterationRatio_comm (a b : RunSummary ℝ) : iterationRatio a b = iterationRatio b a :=
  congrArg₂ (fun high low : ℕ => (high : ℝ) / low) (Nat.max_comm ..) (Nat.min_comm ..)

/-- The other value is at least the share `1 - r` of the first one, so relative to it the same
difference is larger by at most that factor. -/
lemma relativeLoss_swap_le {r : ℝ} (hr : r < 1) (h : relativeLoss a b ≤ r) :
    relativeLoss b a ≤ r / (1 - r) := by
  have hguard : (0 : ℝ) < 1e-10 := by norm_num
  have ha : 0 < |a.finalLoss| + 1e-10 := add_pos_of_nonneg_of_pos (abs_nonneg _) hguard
  have hb : 0 < |b.finalLoss| + 1e-10 := add_pos_of_nonneg_of_pos (abs_nonneg _) hguard
  have hdifference : |a.finalLoss - b.finalLoss| ≤ r * (|a.finalLoss| + 1e-10) :=
    (div_le_iff₀ ha).mp h
  have hr_nonneg : 0 ≤ r := (div_nonneg (abs_nonneg _) ha.le).trans h
  have hfirst : |a.finalLoss| ≤ |b.finalLoss| + |a.finalLoss - b.finalLoss| := by
    have htriangle := abs_sub_abs_le_abs_sub a.finalLoss b.finalLoss
    linarith
  change |b.finalLoss - a.finalLoss| / (|b.finalLoss| + 1e-10) ≤ r / (1 - r)
  rw [abs_sub_comm, div_le_div_iff₀ hb (by linarith)]
  have hscaled := mul_le_mul_of_nonneg_left hfirst hr_nonneg
  linarith

lemma AreCompatible.swap (h : AreCompatible a b) (hloss : ¬ 0.10 < relativeLoss b a) :
    AreCompatible b a :=
  ⟨h.converged.symm, h.finite.symm, hloss, h.length.symm, pointDistance_comm a b ▸ h.point⟩

lemma differences_swap (hloss : 0.01 < relativeLoss b a → 0.01 < relativeLoss a b)
    (h : differences a b = []) : differences b a = [] := by
  rw [differences_eq_nil_iff] at h ⊢
  obtain ⟨hclose, hcount, hpoint⟩ := h
  rw [iterationRatio_comm, pointDistance_comm]
  refine ⟨fun hfar => hclose (hloss hfar), ?_, hpoint⟩
  rwa [and_left_comm]

lemma DivergeAsExpected.swap (h : DivergeAsExpected a b problem) : DivergeAsExpected b a problem :=
  ⟨h.1, h.2.symm⟩

/-- How large a relative difference of the values is to a comparison. -/
inductive LossBand where
  | close
  | noticeable
  | large
  deriving DecidableEq

/-- The band of a relative difference. -/
noncomputable def LossBand.of (r : ℝ) : LossBand :=
  if r ≤ 0.01 then .close else if r ≤ 0.10 then .noticeable else .large

lemma LossBand.of_eq_close_iff {r : ℝ} : of r = close ↔ ¬ 0.01 < r := by
  unfold of
  split_ifs with h h' <;> simp [h]

lemma LossBand.of_eq_large_iff {r : ℝ} : of r = large ↔ 0.10 < r := by
  have hbounds : (0.01 : ℝ) < 0.10 := by norm_num
  unfold of
  split_ifs with h h'
  · simp [h.trans hbounds.le]
  · simp [h']
  · simp [not_le.mp h']

lemma pass_swap (hclose : 0.01 < relativeLoss b a → 0.01 < relativeLoss a b)
    (hlarge : 0.10 < relativeLoss b a → 0.10 < relativeLoss a b)
    (h : (ofRuns a b problem).status = .pass) : (ofRuns b a problem).status = .pass := by
  rw [status_eq_pass_iff] at h ⊢
  rcases h with hexpected | ⟨hcompatible, hnil⟩
  · exact .inl hexpected.swap
  · exact .inr ⟨hcompatible.swap (hcompatible.loss ∘ hlarge), differences_swap hclose hnil⟩

lemma fail_swap (hlarge : 0.10 < relativeLoss a b → 0.10 < relativeLoss b a)
    (h : (ofRuns a b problem).status = .fail) : (ofRuns b a problem).status = .fail := by
  rw [status_eq_fail_iff] at h ⊢
  exact ⟨fun hdiverged => h.1 hdiverged.symm,
    fun hcompatible => h.2 (hcompatible.swap (hcompatible.loss ∘ hlarge))⟩

lemma not_fail_of_pass_swap (h : (ofRuns a b problem).status = .pass) :
    (ofRuns b a problem).status ≠ .fail := by
  intro hfail
  obtain ⟨hsome, hincompatible⟩ := status_eq_fail_iff.mp hfail
  rcases status_eq_pass_iff.mp h with hexpected | ⟨hcompatible, hnil⟩
  · exact hsome hexpected.swap.2
  · have hclose : relativeLoss a b ≤ 0.01 := not_lt.mp (differences_eq_nil_iff.mp hnil).1
    have hswapped : relativeLoss b a ≤ 0.01 / (1 - 0.01) :=
      relativeLoss_swap_le (by norm_num) hclose
    have htenth : (0.01 : ℝ) / (1 - 0.01) ≤ 0.10 := by norm_num
    exact hincompatible (hcompatible.swap (not_lt.mpr (hswapped.trans htenth)))

end Verdict

open Verdict

/-- The order of two runs never turns a pass into a failure, and it does not matter at all if the
relative differences of the values are in the same band from both sides. -/
theorem swapped_pass_never_fails (a b : RunSummary ℝ) (problem : String) :
    ((ofRuns a b problem).status = .pass →
      (ofRuns b a problem).status = .pass ∨ (ofRuns b a problem).status = .suspicious) ∧
    (LossBand.of (relativeLoss a b) = LossBand.of (relativeLoss b a) →
      (ofRuns a b problem).status = (ofRuns b a problem).status) := by
  refine ⟨fun h => ?_, fun hband => ?_⟩
  · have hnot := not_fail_of_pass_swap h
    cases hstatus : (ofRuns b a problem).status with
    | pass => exact .inl rfl
    | suspicious => exact .inr rfl
    | fail => exact absurd hstatus hnot
  · have hclose : 0.01 < relativeLoss a b ↔ 0.01 < relativeLoss b a := by
      rw [← not_iff_not, ← LossBand.of_eq_close_iff, ← LossBand.of_eq_close_iff, hband]
    have hlarge : 0.10 < relativeLoss a b ↔ 0.10 < relativeLoss b a := by
      rw [← LossBand.of_eq_large_iff, ← LossBand.of_eq_large_iff, hband]
    cases hstatus : (ofRuns a b problem).status with
    | pass => exact (pass_swap hclose.mpr hlarge.mpr hstatus).symm
    | fail => exact (fail_swap hlarge.mp hstatus).symm
    | suspicious =>
      -- A pass or a failure from the other side would be one from this side.
      cases hswapped : (ofRuns b a problem).status with
      | pass => exact absurd (pass_swap hclose.mp hlarge.mp hswapped) (by simp [hstatus])
      | fail => exact absurd (fail_swap hlarge.mpr hswapped) (by simp [hstatus])
      | suspicious => rfl

/-- A converged run that ends with the value `loss`. -/
def endsWith (loss : ℝ) : RunSummary ℝ :=
  ⟨true, 1, loss, [], 0⟩

lemma relativeLoss_endsWith (x y : ℝ) :
    relativeLoss (endsWith x) (endsWith y) = |x - y| / (|x| + 1e-10) :=
  rfl

lemma status_endsWith_close :
    (ofRuns (endsWith 1) (endsWith 0.99) "quadratic").status = .pass := by
  have hpoint : pointDistance (endsWith 1) (endsWith 0.99) = 0 := Real.sqrt_zero
  have hcount : iterationRatio (endsWith 1) (endsWith 0.99) = 1 := by
    simp [iterationRatio, endsWith]
  have hclose : relativeLoss (endsWith 1) (endsWith 0.99) ≤ 0.01 := by
    rw [relativeLoss_endsWith]
    norm_num [abs_of_pos]
  refine status_eq_pass_iff.mpr (.inr ⟨⟨⟨rfl, rfl⟩, ⟨rfl, rfl⟩, ?_, rfl, ?_⟩,
    differences_eq_nil_iff.mpr ⟨not_lt.mpr hclose, ?_, ?_⟩⟩)
  · exact not_lt.mpr (hclose.trans (by norm_num))
  · rw [hpoint]
    norm_num
  · rw [hcount]
    norm_num
  · rw [hpoint]
    norm_num

/-- From 1 the value 0.99 is close, but from there 1 is not. From 1 and from 2 the other value is
far away. -/
theorem swapped_close_and_distant_runs :
    (ofRuns (endsWith 1) (endsWith 0.99) "quadratic").status = .pass ∧
    (ofRuns (endsWith 0.99) (endsWith 1) "quadratic").status = .suspicious ∧
    LossBand.of (relativeLoss (endsWith 1) (endsWith 2)) =
      LossBand.of (relativeLoss (endsWith 2) (endsWith 1)) ∧
    (ofRuns (endsWith 1) (endsWith 2) "quadratic").status =
      (ofRuns (endsWith 2) (endsWith 1) "quadratic").status := by
  have hsuspicious : (ofRuns (endsWith 0.99) (endsWith 1) "quadratic").status = .suspicious := by
    refine ((swapped_pass_never_fails _ _ _).1 status_endsWith_close).resolve_left fun hpass => ?_
    have hfar : 0.01 < relativeLoss (endsWith 0.99) (endsWith 1) := by
      rw [relativeLoss_endsWith]
      norm_num [abs_of_pos, abs_of_neg]
    rcases status_eq_pass_iff.mp hpass with hexpected | ⟨-, hnil⟩
    · exact Bool.false_ne_true hexpected.2.1.symm
    · exact (differences_eq_nil_iff.mp hnil).1 hfar
  have hband : LossBand.of (relativeLoss (endsWith 1) (endsWith 2)) =
      LossBand.of (relativeLoss (endsWith 2) (endsWith 1)) := by
    rw [LossBand.of_eq_large_iff.mpr, LossBand.of_eq_large_iff.mpr] <;>
      · rw [relativeLoss_endsWith]
        norm_num [abs_of_pos]
  exact ⟨status_endsWith_close, hsuspicious, hband, (swapped_pass_never_fails _ _ _).2 hband⟩

end Downhill
