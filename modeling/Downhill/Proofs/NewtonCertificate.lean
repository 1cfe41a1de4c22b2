import Downhill.Proofs.Elimination
import Downhill.Proofs.PositiveDefinite
import Downhill.Proofs.PositiveMemory

/-!
# Sources of Newton directions

The source of a Newton direction says which system the direction solves: that of a positive definite
matrix, that of a regular matrix which is not positive definite, or that of the first matrix with a
shift that elimination gets through. Where elimination gets through none of them, the direction is
the negative gradient.
-/

namespace Downhill
open Matrix

variable {n : ℕ}

/-- The largest magnitude on the diagonal, or one where that is larger. -/
noncomputable def diagonalScale (a : Matrix (Fin n) (Fin n) ℝ) : ℝ :=
  max 1 (⨆ i, |a i i|)

/-- The multiple of the identity that is added in attempt `k`. -/
noncomputable def trialShift (a : Matrix (Fin n) (Fin n) ℝ) (k : ℕ) : ℝ :=
  10 ^ k * (1e-10 * diagonalScale a)

lemma foldl_max_diagonal (a : Matrix (Fin n) (Fin n) ℝ) :
    (List.ofFn fun i => a i i).foldl (fun m x => max m |x|) 1 = diagonalScale a := by
  refine eq_of_forall_ge_iff fun c => ?_
  rw [foldl_max_le_iff, diagonalScale, max_le_iff, List.forall_mem_ofFn_iff]
  refine and_congr_right fun hc => ⟨fun h => ?_, fun h i => ?_⟩
  · exact Real.iSup_le h (zero_le_one.trans hc)
  · exact (le_ciSup (Set.finite_range fun i => |a i i|).bddAbove i).trans h

lemma firstShift_ofMatrix (a : Matrix (Fin n) (Fin n) ℝ) :
    firstShift (Rows.ofMatrix a) = trialShift a 0 := by
  have habs : ∀ x : ℝ, Arithmetic.abs x = |x| := fun _ => rfl
  simp only [firstShift, Rows.diagonal_ofMatrix, maxNum_eq_max, habs, foldl_max_diagonal,
    trialShift, pow_zero, one_mul]

variable {a : Matrix (Fin n) (Fin n) ℝ}

lemma trialShift_succ (a : Matrix (Fin n) (Fin n) ℝ) (k : ℕ) :
    trialShift a k * 10.0 = trialShift a (k + 1) := by
  have hten : (10.0 : ℝ) = 10 := by norm_num
  rw [trialShift, trialShift, hten, pow_succ]
  ring

lemma solveShifted_eq_none_iff (b : List ℝ) (attempts k : ℕ) :
    solveShifted (Rows.ofMatrix a) b attempts (trialShift a k) = none ↔
      ∀ j, k ≤ j → j < k + attempts → ¬ LU.HasFactors (a + trialShift a j • 1) := by
  -- The remaining attempts start one shift further on.
  induction attempts generalizing k with
  | zero => exact iff_of_true rfl fun j hj hlt => by omega
  | succ attempts ih =>
    rw [solveShifted, Rows.addDiagonal_ofMatrix]
    cases hsolve : LU.solve (Rows.ofMatrix (a + trialShift a k • 1)) b with
    | none =>
      have hk := (LU.solve_eq_none_iff b).mp hsolve
      dsimp only
      rw [trialShift_succ, ih]
      constructor
      · intro h j hj hlt
        rcases hj.eq_or_lt with rfl | hj
        · exact hk
        · exact h j hj (by omega)
      · exact fun h j hj hlt => h j (by omega) (by omega)
    | some x =>
      refine iff_of_false (Option.some_ne_none _) fun h => ?_
      have hnone := (LU.solve_eq_none_iff b).mpr (h k le_rfl (by omega))
      rw [hsolve] at hnone
      cases hnone

lemma solveShifted_eq_some {b : Fin n → ℝ} {attempts k : ℕ} {found : SymmetricSolution ℝ}
    (h : solveShifted (Rows.ofMatrix a) (List.ofFn b) attempts (trialShift a k) = some found) :
    ∃ j z, k ≤ j ∧ j < k + attempts ∧ found = ⟨List.ofFn z, .regularized (trialShift a j)⟩ ∧
      LU.HasFactors (a + trialShift a j • 1) ∧
      (∀ i, k ≤ i → i < j → ¬ LU.HasFactors (a + trialShift a i • 1)) ∧
      (a + trialShift a j • 1) *ᵥ z = b := by
  induction attempts generalizing k with
  | zero => cases h
  | succ attempts ih =>
    rw [solveShifted, Rows.addDiagonal_ofMatrix] at h
    cases hsolve : LU.solve (Rows.ofMatrix (a + trialShift a k • 1)) (List.ofFn b) with
    | none =>
      have hk := (LU.solve_eq_none_iff _).mp hsolve
      rw [hsolve] at h
      dsimp only at h
      rw [trialShift_succ] at h
      obtain ⟨j, z, hj, hlt, hfound, hfactors, hearlier, hz⟩ := ih h
      refine ⟨j, z, by omega, by omega, hfound, hfactors, ?_, hz⟩
      intro i hi hij
      rcases hi.eq_or_lt with rfl | hi
      · exact hk
      · exact hearlier i hi hij
    | some x =>
      rw [hsolve] at h
      cases h
      obtain ⟨hfactors, z, rfl, hz⟩ := LU.solve_eq_some hsolve
      exact ⟨k, z, le_rfl, by omega, rfl, hfactors, fun i hi hlt => by omega, hz⟩

/-- What a source says about a direction `p`, for the matrix `D` of the damped system and the
gradient `g`. -/
def DirectionSource.Certifies (source : DirectionSource ℝ) (D : Matrix (Fin n) (Fin n) ℝ)
    (g p : Fin n → ℝ) : Prop :=
  match source with
  | solve .cholesky => D.PosDef ∧ D *ᵥ p = -g
  | solve .lu => ¬ D.PosDef ∧ IsUnit D ∧ D *ᵥ p = -g
  | solve (.regularized shift) =>
    ¬ D.PosDef ∧ ¬ LU.HasFactors D ∧ ∃ k < 8, shift = trialShift D k ∧
      LU.HasFactors (D + shift • 1) ∧
      (∀ j < k, ¬ LU.HasFactors (D + trialShift D j • 1)) ∧ (D + shift • 1) *ᵥ p = -g
  | steepestDescentFallback =>
    ¬ D.PosDef ∧ ¬ LU.HasFactors D ∧ (∀ k < 8, ¬ LU.HasFactors (D + trialShift D k • 1)) ∧ p = -g
  | preconditioner _ => False

lemma DirectionSource.Certifies.posDef_iff {source : DirectionSource ℝ}
    {D : Matrix (Fin n) (Fin n) ℝ} {g p : Fin n → ℝ} (h : source.Certifies D g p) :
    source = .solve .cholesky ↔ D.PosDef := by
  match source, h with
  | solve .cholesky, h => exact iff_of_true rfl h.1
  | solve .lu, h => exact iff_of_false (by rintro ⟨⟩) h.1
  | solve (.regularized _), h => exact iff_of_false (by rintro ⟨⟩) h.1
  | steepestDescentFallback, h => exact iff_of_false (by rintro ⟨⟩) h.1

/-- The attempts at a damped system, in their order. -/
lemma newtonDirection_certifies {H : Matrix (Fin n) (Fin n) ℝ} (hH : H.IsSymm) (damping : ℝ)
    (g : Fin n → ℝ) :
    ∃ p, (newtonDirection (Rows.ofMatrix H) damping (List.ofFn g)).1 = List.ofFn p ∧
      (newtonDirection (Rows.ofMatrix H) damping (List.ofFn g)).2.Certifies
        (H + damping • 1) g p := by
  have hsymm : (H + damping • 1 : Matrix (Fin n) (Fin n) ℝ).IsSymm :=
    hH.add (isSymm_one.smul damping)
  rw [newtonDirection, Rows.addDiagonal_ofMatrix, neg_ofFn, solveSymmetric, firstShift_ofMatrix]
  -- From here on the attempts only see the damped matrix.
  generalize H + damping • 1 = D at hsymm ⊢
  cases hcholesky : Cholesky.solve (Rows.ofMatrix D) (List.ofFn (-g)) with
  | some x =>
    have hdefinite : D.PosDef := by
      by_contra hnot
      rw [(Cholesky.solve_eq_none_iff hsymm _).mpr hnot] at hcholesky
      cases hcholesky
    obtain ⟨p, rfl, hp⟩ := Cholesky.solve_eq_some hsymm hcholesky
    exact ⟨p, rfl, hdefinite, hp⟩
  | none =>
    have hnot := (Cholesky.solve_eq_none_iff hsymm _).mp hcholesky
    cases hlu : LU.solve (Rows.ofMatrix D) (List.ofFn (-g)) with
    | some x =>
      obtain ⟨hfactors, p, rfl, hp⟩ := LU.solve_eq_some hlu
      exact ⟨p, rfl, hnot, hfactors.isUnit, hp⟩
    | none =>
      have hsingular := (LU.solve_eq_none_iff _).mp hlu
      cases hshifted : solveShifted (Rows.ofMatrix D) (List.ofFn (-g)) regularizationAttempts
          (trialShift D 0) with
      | some found =>
        obtain ⟨k, p, -, hk, rfl, hfactors, hearlier, hp⟩ := solveShifted_eq_some hshifted
        rw [Nat.zero_add] at hk
        exact ⟨p, rfl, hnot, hsingular, k, hk, rfl, hfactors,
          fun j hj => hearlier j (Nat.zero_le j) hj, hp⟩
      | none =>
        have hall := (solveShifted_eq_none_iff _ _ _).mp hshifted
        rw [Nat.zero_add] at hall
        exact ⟨-g, rfl, hnot, hsingular, fun k hk => hall k (Nat.zero_le k) hk, rfl⟩

/-- An objective whose gradients and Hessians have its dimension, the Hessians being symmetric. -/
structure Objective.HasSymmetricHessians (obj : Objective ℝ) : Prop where
  gradient : ∀ w, w.length = obj.dim → (obj.gradient w).length = obj.dim
  hessian : ∀ w rows, w.length = obj.dim → obj.hessian w = some rows →
    ∃ H : Matrix (Fin obj.dim) (Fin obj.dim) ℝ, H.IsSymm ∧ rows = Rows.ofMatrix H

lemma Objective.HasSymmetricHessians.isShaped {obj : Objective ℝ} (h : obj.HasSymmetricHessians) :
    obj.IsShaped := by
  refine ⟨h.gradient, fun w rows hw hrows => ?_⟩
  obtain ⟨H, -, rfl⟩ := h.hessian w rows hw hrows
  simp [Rows.ofMatrix]

/-- A record of a step along the solution of its own damped system, with the source of it. -/
def IterationRecord.IsCertified (obj : Objective ℝ) (damping : ℝ) (r : IterationRecord ℝ) : Prop :=
  ∃ (H : Matrix (Fin obj.dim) (Fin obj.dim) ℝ) (g p : Fin obj.dim → ℝ)
    (curvature : CurvatureDiagnostics ℝ),
    obj.hessian r.wOld = some (Rows.ofMatrix H) ∧ r.gradient = List.ofFn g ∧
    r.direction = List.ofFn p ∧ r.curvature = some curvature ∧
    curvature.hessian = Rows.ofMatrix H ∧ curvature.damping = damping ∧
    curvature.source.Certifies (H + damping • 1) g p

namespace Method

variable {obj : Objective ℝ} {damping : ℝ} {rule : StepRule ℝ} {s t : RunState ℝ Unit}
  {record : IterationRecord ℝ}

lemma newton_steps_certified (hobj : obj.HasSymmetricHessians)
    (h : (Method.newton obj damping rule).Steps obj s record t) (hs : IsSized obj obj.dim s) :
    record.IsCertified obj damping ∧ IsSized obj obj.dim t := by
  obtain ⟨hessian, hhessian, hdirection, hcurvature⟩ := newton_steps h
  have hpoint : record.wOld.length = obj.dim := h.points.1 ▸ hs.point
  obtain ⟨g, hg⟩ := exists_eq_ofFn (h.gradient_length hobj.gradient hs)
  obtain ⟨H, hH, rfl⟩ := hobj.hessian _ _ hpoint hhessian
  rw [hg] at hdirection hcurvature
  obtain ⟨p, hp, hcertified⟩ := newtonDirection_certifies hH damping g
  rw [hp] at hdirection
  have ht := h.isSized hs (by rw [hdirection, List.length_ofFn])
  exact ⟨⟨H, g, p, _, hhessian, hg, hdirection, hcurvature, rfl, rfl, hcertified⟩, ht⟩

end Method

/-- The source that a Newton record gives for its direction is the truth about it. -/
theorem newton_source_certifies_direction (obj : Objective ℝ) (hobj : obj.HasSymmetricHessians)
    (options : Options ℝ) (trace : Trace ℝ) (h : run .newton obj options = .ok trace) (i : ℕ)
    (hi : i < trace.iterations.length) :
    ∃ (H : Matrix (Fin obj.dim) (Fin obj.dim) ℝ) (g p : Fin obj.dim → ℝ)
      (curvature : CurvatureDiagnostics ℝ),
      let D := H + options.hessianDamping • (1 : Matrix (Fin obj.dim) (Fin obj.dim) ℝ)
      obj.hessian trace.iterations[i].wOld = some (Rows.ofMatrix H) ∧
      trace.iterations[i].gradient = List.ofFn g ∧
      trace.iterations[i].direction = List.ofFn p ∧
      trace.iterations[i].curvature = some curvature ∧
      curvature.hessian = Rows.ofMatrix H ∧ curvature.damping = options.hessianDamping ∧
      (curvature.source = .solve .cholesky ↔ D.PosDef) ∧
      curvature.source.Certifies D g p := by
  have hvalid := ((run_eq_ok_iff ..).mp h).1
  obtain ⟨H, g, p, curvature, hhessian, hg, hp, hcurvature, hH, hdamping, hcertified⟩ :=
    run_forall_records h (fun s : RunState ℝ Unit => Method.IsSized obj obj.dim s)
      (IterationRecord.IsCertified obj options.hessianDamping) (Method.isSized_startState hvalid)
      (fun _ _ _ hs hsteps => Method.newton_steps_certified hobj hsteps hs) i hi
  exact ⟨H, g, p, curvature, hhessian, hg, hp, hcurvature, hH, hdamping, hcertified.posDef_iff,
    hcertified⟩

/-- The second derivatives of the saddle. -/
noncomputable def saddleMatrix : Matrix (Fin 2) (Fin 2) ℝ :=
  !![2.0, 0; 0, -2.0]

lemma saddle_hessian (w : List ℝ) :
    (AnalyticProblem.saddle.objective : Objective ℝ).hessian w =
      some (Rows.ofMatrix saddleMatrix) := by
  simp [AnalyticProblem.objective, AnalyticProblem.hessian, Rows.ofMatrix, saddleMatrix]

lemma saddle_hasSymmetricHessians :
    (AnalyticProblem.saddle.objective : Objective ℝ).HasSymmetricHessians := by
  have hsymm : saddleMatrix.IsSymm := by
    apply IsSymm.ext
    simp [Fin.forall_fin_two, saddleMatrix]
  refine ⟨fun _ _ => rfl, fun w rows _ hrows => ⟨saddleMatrix, hsymm, ?_⟩⟩
  rw [saddle_hessian] at hrows
  exact (Option.some_inj.mp hrows).symm

/-- The matrix of the saddle is not positive definite, so its first direction has another source. -/
theorem saddle_source_certifies : ∃ trace,
    run .newton (AnalyticProblem.saddle.objective : Objective ℝ) saddleOptions = .ok trace ∧
      ∃ hi : 0 < trace.iterations.length, ∃ (g p : Fin 2 → ℝ) (curvature : CurvatureDiagnostics ℝ),
        trace.iterations[0].gradient = List.ofFn g ∧ trace.iterations[0].direction = List.ofFn p ∧
        trace.iterations[0].curvature = some curvature ∧
        curvature.source ≠ .solve .cholesky ∧
        curvature.source.Certifies (saddleMatrix + saddleOptions.hessianDamping • 1) g p := by
  obtain ⟨trace, hrun, hi⟩ := saddle_run .newton
  obtain ⟨H, g, p, curvature, hhessian, hg, hp, hcurvature, -, -, hcholesky, hcertified⟩ :=
    newton_source_certifies_direction _ saddle_hasSymmetricHessians saddleOptions trace hrun 0 hi
  rw [saddle_hessian, Option.some_inj] at hhessian
  obtain rfl := Rows.ofMatrix_injective hhessian
  refine ⟨trace, hrun, hi, g, p, curvature, hg, hp, hcurvature, ?_, hcertified⟩
  intro hsource
  have hdefinite := hcholesky.mp hsource
  have hpos : (0 : ℝ) < (saddleMatrix + saddleOptions.hessianDamping • 1) 1 1 :=
    hdefinite.diag_pos
  have hdamping : saddleOptions.hessianDamping = (0.01 : ℝ) := rfl
  rw [hdamping] at hpos
  norm_num [saddleMatrix] at hpos

end Downhill
