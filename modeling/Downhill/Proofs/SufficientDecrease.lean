import Downhill.Proofs.InverseHessian
import Downhill.Proofs.RecordChain

/-!
# Sufficient decrease

Over the real numbers a line search that is satisfied has found a positive step to a value below its
threshold. Along a direction that a positive definite matrix makes of the negative gradient the
threshold lies below the value at the start, unless the gradient is zero, and then no step moves.
-/

namespace Downhill
open Matrix

namespace SearchLine

lemma searchPlain_sufficient (obj : Objective ℝ) (line : SearchLine ℝ) (params : ArmijoParams ℝ)
    (hrho : 0 < params.rho) (more : ℕ) (alpha : ℝ) (halpha : 0 < alpha)
    (earlier : List (LineSearchTrial ℝ)) :
    let found := searchPlain obj line params more alpha earlier
    0 < found.alpha ∧
      (found.satisfied = true → found.value ≤ line.threshold params.c1 found.alpha) := by
  induction more generalizing alpha earlier with
  | zero =>
    rw [searchPlain_zero]
    exact ⟨halpha, fun h => of_decide_eq_true h⟩
  | succ more ih =>
    rw [searchPlain_succ]
    dsimp only
    split
    · exact ⟨halpha, fun h => of_decide_eq_true h⟩
    · exact ih _ (mul_pos halpha hrho) _

end SearchLine

/-- A positive definite matrix makes the direction of the negative gradient. -/
def IsDescent (n : ℕ) (gradient direction : List ℝ) : Prop :=
  ∃ H : Matrix (Fin n) (Fin n) ℝ, IsPositiveForm H ∧
    direction = List.ofFn (-(H *ᵥ coords n gradient))

namespace IsDescent

variable {n : ℕ} {gradient direction : List ℝ}

lemma length_eq (h : IsDescent n gradient direction) : direction.length = n := by
  obtain ⟨H, -, rfl⟩ := h
  exact List.length_ofFn

lemma neg_gradient (hlength : gradient.length = n) : IsDescent n gradient (neg gradient) := by
  obtain ⟨g, rfl⟩ := exists_eq_ofFn hlength
  refine ⟨1, ?_, ?_⟩
  · simpa using IsPositiveForm.smul_one (n := n) one_pos
  · rw [neg_ofFn, coords_ofFn, one_mulVec]

/-- The slope along the direction is negative. -/
lemma slope_neg (h : IsDescent n gradient direction) (hlength : gradient.length = n)
    (hne : ¬ ∀ x ∈ gradient, x = 0) : dot gradient direction < 0 := by
  obtain ⟨H, hH, rfl⟩ := h
  obtain ⟨g, rfl⟩ := exists_eq_ofFn hlength
  have hg : g ≠ 0 := by rwa [← coords_eq_zero_iff hlength, coords_ofFn] at hne
  rw [dot_ofFn, coords_ofFn, dotProduct_neg]
  exact neg_neg_of_pos (hH.pos g hg)

lemma along_eq_self (h : IsDescent n gradient direction) (hlength : gradient.length = n)
    (hzero : ∀ x ∈ gradient, x = 0) {w : List ℝ} (hw : w.length = n) (alpha : ℝ) :
    along w alpha direction = w := by
  obtain ⟨H, -, rfl⟩ := h
  obtain ⟨w, rfl⟩ := exists_eq_ofFn hw
  rw [(coords_eq_zero_iff hlength).mpr hzero, mulVec_zero, neg_zero, along_ofFn, smul_zero,
    add_zero]

end IsDescent

namespace Method

variable {σ : Type} {method : Method ℝ σ} {obj : Objective ℝ} {s t : RunState ℝ σ}
  {record : IterationRecord ℝ} {params : ArmijoParams ℝ}

lemma Steps.stepSize_pos (h : method.Steps obj s record t) (hrule : method.rule = .armijo params)
    (halpha : 0 < params.alphaInit) (hrho : 0 < params.rho) : 0 < record.stepSize := by
  rw [(h.armijo hrule).1, searchAlong]
  exact (SearchLine.searchPlain_sufficient obj _ params hrho _ _ halpha []).1

/-- A search that is satisfied lowers the value, unless there is no way down to first order. -/
lemma Steps.decrease {n : ℕ} (h : method.Steps obj s record t)
    (hrule : method.rule = .armijo params) (hc1 : 0 < params.c1) (halpha : 0 < params.alphaInit)
    (hrho : 0 < params.rho) (hs : s.current.Faithful obj) (hpoint : record.wOld.length = n)
    (hgradient : record.gradient.length = n)
    (hdescent : IsDescent n record.gradient record.direction) :
    ∃ log, record.lineSearch = some log ∧
      (log.satisfied = true → record.newLoss < record.loss ∨
        record.newLoss = record.loss ∧ ∀ x ∈ record.gradient, x = 0) := by
  obtain ⟨hsize, hvalue, hlog⟩ := h.armijo hrule
  have hfaithful := (h.faithful hs).1
  obtain ⟨hpos, hsufficient⟩ := SearchLine.searchPlain_sufficient obj
    (.ofGradient record.wOld record.direction record.loss record.gradient) params hrho
    (params.maxTrials - 1) params.alphaInit halpha []
  rw [← searchAlong, ← hsize] at hpos
  rw [← searchAlong, ← hsize, ← hvalue] at hsufficient
  refine ⟨_, hlog, fun hsatisfied => ?_⟩
  have hle : record.newLoss ≤
      record.loss + params.c1 * record.stepSize * dot record.gradient record.direction :=
    hsufficient hsatisfied
  by_cases hzero : ∀ x ∈ record.gradient, x = 0
  · right
    refine ⟨?_, hzero⟩
    rw [hfaithful.newLoss, hfaithful.wNew, hdescent.along_eq_self hgradient hzero hpoint,
      hfaithful.loss]
  · left
    have hslope := hdescent.slope_neg hgradient hzero
    have hdrop := mul_neg_of_pos_of_neg (mul_pos hc1 hpos) hslope
    linarith

end Method

end Downhill
