import Downhill.Comparison.Report
import Downhill.Proofs.NumberOrder
import Downhill.Proofs.UndefinedResults
import Downhill.Proofs.Verdicts

/-!
# What a pass says

Two converged runs pass only if their values are finite and within a hundredth of each other, their
points have one dimension and their iteration counts are alike. The points need not be close: where
their distance is no number, no comparison of it holds, and nothing else looks at the coordinates.
That happens exactly if a coordinate is no number, or if both points have the same infinity at one
place.
-/

namespace Downhill
open Float.Model

lemma numberPlace_eq_none_iff (a : UnpackedFloat) : numberPlace a = none ↔ a.isNaN = true := by
  rcases a with ⟨_ | _⟩ | _ | _ | ⟨_ | _, m, e, _⟩ <;> simp [numberPlace, UnpackedFloat.isNaN]

/-- What does not lie above a number lies at or below it, or is no number. -/
lemma double_not_lt_iff {c x : Float} (hc : Arithmetic.isNaN c = false) :
    ¬ c < x ↔ x ≤ c ∨ Arithmetic.isNaN x = true := by
  rw [PackedArithmetic.isNaN_eq] at hc ⊢
  change ¬ c < x ↔ x ≤ c ∨ x.toModel.unpack.isNaN = true
  rw [double_lt_iff, double_le_iff, lt_iff_numberPlace, le_iff_numberPlace,
    ← numberPlace_eq_none_iff]
  obtain ⟨p, hp⟩ : ∃ p, numberPlace c.toModel.unpack = some p :=
    Option.ne_none_iff_exists'.mp fun h =>
      Bool.false_ne_true (hc.symm.trans ((numberPlace_eq_none_iff _).mp h))
  rw [hp]
  cases numberPlace x.toModel.unpack <;> simp

/-- What does not lie above a number does not lie above a larger one. -/
lemma double_not_lt_of_larger {c d x : Float} (hc : Arithmetic.isNaN c = false)
    (hd : Arithmetic.isNaN d = false) (hdc : ¬ d < c) (h : ¬ c < x) : ¬ d < x := by
  rcases (double_not_lt_iff hc).mp h with hle | hnan
  · exact fun hlt => hdc (OrderedArithmetic.lt_of_lt_of_le hlt hle)
  · exact (double_not_lt_iff hd).mpr (.inr hnan)

namespace Verdict

variable {a b : RunSummary Float} {problem : String}

/-- Two converged runs that agree in all that a comparison looks at, apart from where they end. -/
structure AgreeButForPoints (a b : RunSummary Float) : Prop where
  converged : a.converged = true ∧ b.converged = true
  finite : Arithmetic.isFinite a.finalLoss = true ∧ Arithmetic.isFinite b.finalLoss = true
  loss : relativeLoss a b ≤ 0.01
  length : a.finalPoint.length = b.finalPoint.length
  iterations : ¬ (0 < a.iterations ∧ 0 < b.iterations ∧ 3.0 < iterationRatio a b)

/-- At one place, a coordinate is no number, or both coordinates are the same infinity. -/
def HaveNoDistance (u v : List Float) : Prop :=
  ∃ p ∈ u.zip v, Arithmetic.isNaN p.1 = true ∨ Arithmetic.isNaN p.2 = true ∨
    (Arithmetic.isFinite p.1 = false ∧ (p.1 == p.2) = true)

/-- The guard of the relative difference is `7737125245533627 / 2 ^ 86`. -/
lemma isSmall_guard : PackedArithmetic.IsSmall (1e-10 : Float) :=
  ⟨7737125245533627, -86, by decide, by rfl, by decide⟩

lemma isNaN_relativeLoss (ha : Arithmetic.isFinite a.finalLoss = true)
    (hb : Arithmetic.isFinite b.finalLoss = true) :
    Arithmetic.isNaN (relativeLoss a b) = false := by
  refine PackedArithmetic.isNaN_guarded_div ?_ ha isSmall_guard
  rw [PackedArithmetic.isNaN_abs, Bool.eq_false_iff, ne_eq, PackedArithmetic.isNaN_difference_iff,
    FiniteResults.isNaN_of_isFinite ha, FiniteResults.isNaN_of_isFinite hb, ha]
  simp

lemma isNaN_pointDistance_iff (a b : RunSummary Float) :
    Arithmetic.isNaN (pointDistance a b) = true ↔ HaveNoDistance a.finalPoint b.finalPoint := by
  rw [pointDistance, PackedArithmetic.isNaN_norm, sub, ← List.map_uncurry_zip_eq_zipWith,
    List.any_map, List.any_eq_true]
  exact exists_congr fun p => and_congr_right fun _ => PackedArithmetic.isNaN_difference_iff ..

/-- If no difference is noticed, no larger one is either. -/
lemma areCompatible_iff_of_differences_eq_nil (h : differences a b = []) : AreCompatible a b ↔
    (a.converged = true ∧ b.converged = true) ∧
      (Arithmetic.isFinite a.finalLoss = true ∧ Arithmetic.isFinite b.finalLoss = true) ∧
      a.finalPoint.length = b.finalPoint.length := by
  obtain ⟨hloss, -, hpoint⟩ := differences_eq_nil_iff.mp h
  constructor
  · exact fun h => ⟨h.converged, h.finite, h.length⟩
  · rintro ⟨hconverged, hfinite, hlength⟩
    have hloss : ¬ (0.10 : Float) < relativeLoss a b :=
      double_not_lt_of_larger (c := 0.01) (by decide) (by decide) (by decide) hloss
    have hpoint : ¬ (1 : Float) < pointDistance a b :=
      double_not_lt_of_larger (c := 0.1) (by decide) (by decide) (by decide) hpoint
    exact ⟨hconverged, hfinite, hloss, hlength, hpoint⟩

/-- The relative difference of finite values can be compared, the distance of points perhaps not. -/
lemma differences_eq_nil_iff_le (ha : Arithmetic.isFinite a.finalLoss = true)
    (hb : Arithmetic.isFinite b.finalLoss = true) : differences a b = [] ↔
      relativeLoss a b ≤ 0.01 ∧
        ¬ (0 < a.iterations ∧ 0 < b.iterations ∧ 3.0 < iterationRatio a b) ∧
          (pointDistance a b ≤ 0.1 ∨ HaveNoDistance a.finalPoint b.finalPoint) := by
  have hloss : ¬ (0.01 : Float) < relativeLoss a b ↔ relativeLoss a b ≤ 0.01 := by
    rw [double_not_lt_iff (by decide), isNaN_relativeLoss ha hb]
    exact or_iff_left Bool.false_ne_true
  have hpoint : ¬ (0.1 : Float) < pointDistance a b ↔
      pointDistance a b ≤ 0.1 ∨ HaveNoDistance a.finalPoint b.finalPoint := by
    rw [double_not_lt_iff (by decide), isNaN_pointDistance_iff]
  rw [differences_eq_nil_iff]
  exact and_congr hloss (and_congr_right fun _ => hpoint)

lemma agreement_iff : AreCompatible a b ∧ differences a b = [] ↔ AgreeButForPoints a b ∧
    (pointDistance a b ≤ 0.1 ∨ HaveNoDistance a.finalPoint b.finalPoint) := by
  constructor
  · rintro ⟨h, hnil⟩
    obtain ⟨hloss, hiterations, hpoint⟩ := (differences_eq_nil_iff_le h.finite.1 h.finite.2).mp hnil
    exact ⟨⟨h.converged, h.finite, hloss, h.length, hiterations⟩, hpoint⟩
  · rintro ⟨h, hpoint⟩
    have hnil : differences a b = [] :=
      (differences_eq_nil_iff_le h.finite.1 h.finite.2).mpr ⟨h.loss, h.iterations, hpoint⟩
    exact ⟨(areCompatible_iff_of_differences_eq_nil hnil).mpr ⟨h.converged, h.finite, h.length⟩,
      hnil⟩

end Verdict

open Verdict

/-- A pass says that neither run converged and none was expected to, or that both converged and
agree. Their points then are within a tenth of each other unless they have no distance at all. -/
theorem pass_says_all_but_distance (a b : RunSummary Float) (problem : String) :
    (compareRuns a b problem).status = .pass ↔ DivergeAsExpected a b problem ∨
      AgreeButForPoints a b ∧
        (pointDistance a b ≤ 0.1 ∨ HaveNoDistance a.finalPoint b.finalPoint) := by
  rw [← agreement_iff]
  exact status_eq_pass_iff

/-- A converged run that ends with the value one at a point whose first coordinate is `x`. -/
def endsAt (x : Float) : RunSummary Float :=
  ⟨true, 10, 1.0, [x, 1.0], 1e-8⟩

/-- Two runs that both converged pass, although one of them ended at a point that is none. -/
theorem undefined_coordinate_passes :
    (compareRuns (endsAt (0.0 / 0.0)) (endsAt 1.0) "rosenbrock").status = .pass ∧
    ¬ DivergeAsExpected (endsAt (0.0 / 0.0)) (endsAt 1.0) "rosenbrock" ∧
    ¬ pointDistance (endsAt (0.0 / 0.0)) (endsAt 1.0) ≤ 0.1 := by
  refine ⟨by decide, ?_, by decide⟩
  rintro ⟨h, -⟩
  exact absurd h (by decide)

end Downhill
