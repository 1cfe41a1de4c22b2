import Mathlib.Tactic.Common
import Downhill.Problem.Quadratic
import Downhill.Proofs.RunHistory
import Downhill.Proofs.SpecialValues

/-!
# Damped diagonals

A damped diagonal entry that is zero, is no number or has an inverse beyond the range is replaced by
one, and the record counts it. An infinite entry passes: its inverse is zero, which is finite. So the
coordinate of an infinite entry does not move, and no count tells of it.
-/

namespace Downhill

variable {F : Type} [Arithmetic F]

namespace Arithmetic

def IsInfinite (x : F) : Prop :=
  isFinite x = false ∧ isNaN x = false

/-- Whether a number is no number, or zero, or so close to zero that its inverse is out of range. -/
def LacksInverse (x : F) : Prop :=
  (x == 0) = true ∨ isNaN x = true ∨ isFinite x = true ∧ isFinite (1 / x) = false

instance : DecidablePred (LacksInverse (F := F)) := fun x =>
  inferInstanceAs (Decidable (_ ∨ isNaN x = true ∨ isFinite x = true ∧ _))

end Arithmetic

/-- The diagonal whose entries are inverted. -/
def Rows.dampedDiagonal (hessian : Rows F) (damping : F) : List F :=
  hessian.diagonal.map (· + damping)

open Arithmetic

/-- What a coordinate with the damped diagonal entry `d` is scaled by. -/
structure IsScaleOf (d scale : F) : Prop where
  eq_one : LacksInverse d → scale = 1
  eq_inverse : ¬ LacksInverse d → scale = 1 / d
  finite : isFinite scale = true
  beq_zero_iff : (scale == 0) = true ↔ IsInfinite d

section Entries

variable [FiniteReciprocals F] {d : F}

lemma isFinite_of_beq_zero (h : (d == 0) = true) : isFinite d = true :=
  (FiniteResults.isFinite_eq_of_beq h).trans FiniteReciprocals.isFinite_zero

lemma Arithmetic.LacksInverse.not_isInfinite (h : LacksInverse d) : ¬ IsInfinite d := by
  rintro ⟨hinfinite, hnumber⟩
  obtain hzero | hnan | ⟨hfinite, -⟩ := h
  · rw [isFinite_of_beq_zero hzero] at hinfinite
    cases hinfinite
  · rw [hnan] at hnumber
    cases hnumber
  · rw [hfinite] at hinfinite
    cases hinfinite

/-- Only an infinite number has the inverse zero. -/
lemma one_div_of_not_lacksInverse (h : ¬ LacksInverse d) :
    isFinite (1 / d) = true ∧ ((1 / d == 0) = true ↔ IsInfinite d) := by
  simp only [LacksInverse, not_or, not_and, Bool.not_eq_true, Bool.not_eq_false] at h
  obtain ⟨hzero, hnumber, hinverse⟩ := h
  cases hfinite : isFinite d with
  | true =>
    refine ⟨hinverse hfinite, iff_of_false ?_ fun hinfinite => ?_⟩
    · rw [(FiniteReciprocals.of_finite hfinite hzero).2]
      exact Bool.false_ne_true
    · rw [hinfinite.1] at hfinite
      cases hfinite
  | false =>
    have hinfinite := FiniteReciprocals.of_infinite hfinite hnumber
    exact ⟨hinfinite.1, iff_of_true hinfinite.2 ⟨hfinite, hnumber⟩⟩

lemma lacksInverse_iff : LacksInverse d ↔ (d == 0) = true ∨ isFinite (1 / d) = false := by
  constructor
  · rintro (hzero | hnan | ⟨-, hinverse⟩)
    · exact .inl hzero
    · refine .inr (Bool.eq_false_iff.mpr fun hfinite => ?_)
      rw [(FiniteResults.div hfinite).2] at hnan
      cases hnan
    · exact .inr hinverse
  · intro h
    by_contra hnot
    obtain hzero | hinverse := h
    · exact hnot (.inl hzero)
    · rw [(one_div_of_not_lacksInverse hnot).1] at hinverse
      cases hinverse

lemma inverseEntry?_eq (d : F) :
    inverseEntry? d = if LacksInverse d then none else some (1 / d) := by
  unfold inverseEntry?
  simp only [Bool.or_eq_true, Bool.not_eq_true', lacksInverse_iff]

lemma isScaleOf_replaced (d : F) :
    IsScaleOf d ((if LacksInverse d then none else some (1 / d)).getD 1) := by
  split_ifs with h
  · refine ⟨fun _ => rfl, fun hnot => absurd h hnot, FiniteReciprocals.isFinite_one, ?_⟩
    rw [Option.getD_none, FiniteReciprocals.one_ne_zero]
    exact iff_of_false Bool.false_ne_true h.not_isInfinite
  · obtain ⟨hfinite, hzero⟩ := one_div_of_not_lacksInverse h
    exact ⟨fun hlacks => absurd hlacks h, fun _ => rfl, hfinite, hzero⟩

end Entries

/-- The scales of the coordinates for a damped diagonal, and how many of the entries are replaced. -/
structure AreScalesOf (damped scales : List F) (replaced : Nat) : Prop where
  each : List.Forall₂ IsScaleOf damped scales
  replaced_eq : replaced = damped.countP fun d => decide (LacksInverse d)

lemma inverseDiagonal_areScalesOf [FiniteReciprocals F] (hessian : Rows F) (damping : F) :
    AreScalesOf (hessian.dampedDiagonal damping) (inverseDiagonal hessian damping).1
      (inverseDiagonal hessian damping).2 := by
  have hinverses : (hessian.diagonal.map fun d => inverseEntry? (d + damping)) =
      (hessian.dampedDiagonal damping).map fun d =>
        if LacksInverse d then none else some (1 / d) := by
    simp only [inverseEntry?_eq, Rows.dampedDiagonal, List.map_map]
    rfl
  simp only [inverseDiagonal, hinverses]
  constructor
  · rw [List.map_map, List.forall₂_map_right_iff]
    exact List.forall₂_same.mpr fun d _ => isScaleOf_replaced d
  · rw [List.countP_map]
    congr 1
    funext d
    simp only [Function.comp_apply]
    split_ifs with h
    · exact (decide_eq_true h).symm
    · exact (decide_eq_false h).symm

lemma forall_scales_nonzero_iff {damped scales : List F} (h : List.Forall₂ IsScaleOf damped scales) :
    (∀ scale ∈ scales, (scale == 0) = false) ↔ ∀ d ∈ damped, ¬ IsInfinite d := by
  induction h with
  | nil => simp
  | cons hscale _ ih =>
    rw [List.forall_mem_cons, List.forall_mem_cons, ← hscale.beq_zero_iff, Bool.not_eq_true]
    exact and_congr_right fun _ => ih

/-- A record of the method with the inverse diagonal, with the scales that it used. -/
structure IterationRecord.IsScaledBy (obj : Objective F) (damping : F) (r : IterationRecord F)
    (c : CurvatureDiagnostics F) (scales : List F) (replaced : Nat) : Prop where
  hessian : obj.hessian r.wOld = some c.hessian
  curvature : r.curvature = some c
  preconditioner : c.preconditioner = some scales
  source : c.source = .preconditioner replaced
  direction : r.direction = List.zipWith (fun s g => -(s * g)) scales r.gradient
  scales : AreScalesOf (c.hessian.dampedDiagonal damping) scales replaced

lemma Method.diagonal_steps_isScaledBy [FiniteReciprocals F] {obj : Objective F} {damping : F}
    {rule : StepRule F} {s t : RunState F Unit} {r : IterationRecord F}
    (h : (Method.diagonal obj damping rule).Steps obj s r t) :
    ∃ c scales replaced, r.IsScaledBy obj damping c scales replaced := by
  obtain ⟨hessian, hhessian, hdirection, hcurvature⟩ := diagonal_steps h
  exact ⟨_, _, _, hhessian, hcurvature, rfl, rfl, hdirection,
    inverseDiagonal_areScalesOf hessian damping⟩

lemma run_isScaledBy [FiniteReciprocals F] {obj : Objective F} {options : Options F}
    {trace : Trace F} (h : run .diagonalPreconditioner obj options = .ok trace) (i : Nat)
    (hi : i < trace.iterations.length) : ∃ c scales replaced,
      trace.iterations[i].IsScaledBy obj options.hessianDamping c scales replaced :=
  run_forall_records h (fun _ => True)
    (fun r => ∃ c scales replaced, r.IsScaledBy obj options.hessianDamping c scales replaced) trivial
    (fun _ _ _ _ hsteps => ⟨Method.diagonal_steps_isScaledBy hsteps, trivial⟩) i hi

/-- Entries of the damped diagonal that are zero, no numbers or too close to zero have scale one and
are counted, and all others are inverted. The scales are finite, but an infinite entry has scale
zero. -/
theorem diagonal_replaces_entries_without_inverse [FiniteReciprocals F] :
    (∀ (hessian : Rows F) (damping : F), AreScalesOf (hessian.dampedDiagonal damping)
      (inverseDiagonal hessian damping).1 (inverseDiagonal hessian damping).2) ∧
    ∀ (obj : Objective F) (options : Options F) (trace : Trace F),
      run .diagonalPreconditioner obj options = .ok trace →
      ∀ i (hi : i < trace.iterations.length), ∃ c scales replaced,
        trace.iterations[i].IsScaledBy obj options.hessianDamping c scales replaced ∧
        ((∀ scale ∈ scales, (scale == 0) = false) ↔
          ∀ d ∈ c.hessian.dampedDiagonal options.hessianDamping, ¬ IsInfinite d) := by
  refine ⟨inverseDiagonal_areScalesOf, fun obj options trace hrun i hi => ?_⟩
  obtain ⟨c, scales, replaced, hscaled⟩ := run_isScaledBy hrun i hi
  exact ⟨c, scales, replaced, hscaled, forall_scales_nonzero_iff hscaled.scales.each⟩

/-- One full step of the diagonal method, with a damping that is close to the end of the range. -/
def heavyOptions (start : List Float) : Options Float :=
  { Options.standard .double with
    maxIter := 1
    initialPoint := start
    hessianDamping := 1e308
    lineSearch := .off }

/-- The curvature close to the end of the range and the damping together are beyond it. -/
lemma isInfinite_heavy_sum : IsInfinite (1e308 + 1e308 : Float) := by
  constructor <;> decide +kernel

lemma IterationRecord.IsScaledBy.hessian_eq {form : QuadraticForm F} {damping : F}
    {r : IterationRecord F} {c : CurvatureDiagnostics F} {scales : List F} {replaced : Nat}
    (h : r.IsScaledBy form.objective damping c scales replaced) : c.hessian = form.matrix :=
  (Option.some_inj.mp h.hessian).symm

/-- A saddle with curvatures close to both ends of the range. -/
def steepSaddle : QuadraticForm Float where
  matrix := [[1e308, 0], [0, -1e308]]
  linear := [1, 1]
  square := by simp
  linear_length := rfl

/-- One damped entry of the steep saddle is out of range and the other one is zero. Only the zero is
replaced. -/
theorem steep_saddle_replaces_zero : ∃ trace,
    run .diagonalPreconditioner steepSaddle.objective (heavyOptions [0, 0]) = .ok trace ∧
      ∃ hi : 0 < trace.iterations.length, ∃ c scale,
        trace.iterations[0].IsScaledBy steepSaddle.objective 1e308 c [scale, 1] 1 ∧
        (scale == 0) = true := by
  obtain ⟨trace, hrun, hlength⟩ : ∃ trace,
      run .diagonalPreconditioner steepSaddle.objective (heavyOptions [0, 0]) = .ok trace ∧
        trace.iterations.length = 1 :=
    exists_trace_of_toOption _ (by decide +kernel)
  have hi : 0 < trace.iterations.length := by omega
  obtain ⟨c, scales, replaced, hscaled, -⟩ := diagonal_replaces_entries_without_inverse.2
    steepSaddle.objective (heavyOptions [0, 0]) trace hrun 0 hi
  have hdamping : (heavyOptions [0, 0]).hessianDamping = 1e308 := rfl
  have hdiagonal : c.hessian.dampedDiagonal 1e308 = [1e308 + 1e308, -1e308 + 1e308] := by
    rw [hscaled.hessian_eq]
    rfl
  rw [hdamping] at hscaled
  obtain ⟨heach, hreplaced⟩ := hscaled.scales
  rw [hdiagonal] at heach hreplaced
  have hone : replaced = 1 := hreplaced.trans (by decide +kernel)
  subst hone
  obtain ⟨first, rest, hfirst, hrest, rfl⟩ := List.forall₂_cons_left_iff.mp heach
  obtain ⟨second, _, hsecond, hnil, rfl⟩ := List.forall₂_cons_left_iff.mp hrest
  obtain rfl := List.forall₂_nil_left_iff.mp hnil
  have hzero : LacksInverse (-1e308 + 1e308 : Float) := by decide +kernel
  obtain rfl := hsecond.eq_one hzero
  exact ⟨trace, hrun, hi, c, first, hscaled, hfirst.beq_zero_iff.mpr isInfinite_heavy_sum⟩

/-- A parabola with a curvature close to the end of the range. -/
def steepParabola : QuadraticForm Float where
  matrix := [[1e308]]
  linear := [1]
  square := by simp
  linear_length := rfl

/-- The damped entry is not finite, and yet its coordinate has scale zero and is not counted. -/
theorem overflowing_entry_freezes_coordinate : ∃ trace,
    run .diagonalPreconditioner steepParabola.objective (heavyOptions [0]) = .ok trace ∧
      ∃ hi : 0 < trace.iterations.length, ∃ c scale, trace.iterations[0].curvature = some c ∧
        c.hessian = [[1e308]] ∧ isFinite (1e308 + 1e308 : Float) = false ∧
        c.preconditioner = some [scale] ∧ (scale == 0) = true ∧ c.source = .preconditioner 0 := by
  obtain ⟨trace, hrun, hlength⟩ : ∃ trace,
      run .diagonalPreconditioner steepParabola.objective (heavyOptions [0]) = .ok trace ∧
        trace.iterations.length = 1 :=
    exists_trace_of_toOption _ (by decide +kernel)
  have hi : 0 < trace.iterations.length := by omega
  obtain ⟨c, scales, replaced, hscaled⟩ := run_isScaledBy hrun 0 hi
  have hhessian : c.hessian = [[1e308]] := hscaled.hessian_eq
  have hdamping : (heavyOptions [0]).hessianDamping = 1e308 := rfl
  have hdiagonal : c.hessian.dampedDiagonal 1e308 = [1e308 + 1e308] := by
    rw [hhessian]
    rfl
  rw [hdamping] at hscaled
  obtain ⟨heach, hreplaced⟩ := hscaled.scales
  rw [hdiagonal] at heach hreplaced
  have hnone : replaced = 0 := hreplaced.trans (by decide +kernel)
  subst hnone
  obtain ⟨scale, _, hscale, hnil, rfl⟩ := List.forall₂_cons_left_iff.mp heach
  obtain rfl := List.forall₂_nil_left_iff.mp hnil
  exact ⟨trace, hrun, hi, c, scale, hscaled.curvature, hhessian, isInfinite_heavy_sum.1,
    hscaled.preconditioner, hscale.beq_zero_iff.mpr isInfinite_heavy_sum, hscaled.source⟩

end Downhill
