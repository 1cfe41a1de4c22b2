import Mathlib.Analysis.Matrix.Order
import Downhill.Proofs.CharacteristicRoots
import Downhill.Proofs.DiagonalHessians
import Downhill.Proofs.QuadraticValues

/-!
# Signs of the recorded eigenvalues

The eigenvalues in a record and the source of its direction come from unrelated computations on one
Hessian. They agree: Cholesky factors exist where the smallest eigenvalue stays positive under the
damping. The signs of the eigenvalues are those that the form of the Hessian takes, so a saddle is a
point from which the function bends upwards in one direction and downwards in another.
-/

namespace Downhill
open Matrix

namespace Spectrum

variable {n : ℕ} {A : Matrix (Fin n) (Fin n) ℝ} {values : List ℝ}

lemma IsSpectrum.mem_iff (h : IsSpectrum A values) (x : ℝ) : x ∈ values ↔ x ∈ spectrum ℝ A := by
  have hroot : x ∈ values ↔ (values.map (x - ·)).prod = 0 := by
    simp [List.prod_eq_zero_iff, sub_eq_zero]
  rw [hroot, ← h.det_eq, spectrum.mem_iff, Algebra.algebraMap_eq_smul_one, isUnit_iff_isUnit_det,
    isUnit_iff_ne_zero, not_not]

lemma mem_spectrum_shift (x c : ℝ) : x + c ∈ spectrum ℝ (A + c • 1) ↔ x ∈ spectrum ℝ A := by
  rw [add_comm A, ← Algebra.algebraMap_eq_smul_one]
  exact spectrum.add_mem_add_iff

lemma posDef_iff_spectrum_pos (hA : A.IsSymm) : A.PosDef ↔ ∀ x ∈ spectrum ℝ A, 0 < x := by
  have hherm : A.IsHermitian := isHermitian_iff_isSymm.mpr hA
  rw [hherm.posDef_iff_eigenvalues_pos, hherm.spectrum_real_eq_range_eigenvalues,
    Set.forall_mem_range]

lemma posDef_shift_iff (hA : A.IsSymm) (c : ℝ) :
    (A + c • 1).PosDef ↔ ∀ x ∈ spectrum ℝ A, 0 < x + c := by
  rw [posDef_iff_spectrum_pos (hA.add (isSymm_one.smul c))]
  constructor
  · exact fun h x hx => h _ ((mem_spectrum_shift x c).mpr hx)
  · intro h x hx
    rw [← sub_add_cancel x c] at hx ⊢
    exact h _ ((mem_spectrum_shift _ c).mp hx)

lemma exists_form_neg_iff (hA : A.IsSymm) :
    (∃ v : Fin n → ℝ, v ⬝ᵥ A *ᵥ v < 0) ↔ ∃ x ∈ spectrum ℝ A, x < 0 := by
  have hherm : A.IsHermitian := isHermitian_iff_isSymm.mpr hA
  have hforms : A.PosSemidef ↔ ∀ v : Fin n → ℝ, 0 ≤ v ⬝ᵥ A *ᵥ v := by
    simp only [posSemidef_iff_dotProduct_mulVec, hherm, true_and, star_trivial]
  have hvalues : A.PosSemidef ↔ ∀ x ∈ spectrum ℝ A, 0 ≤ x := by
    rw [posSemidef_iff_isHermitian_and_spectrum_nonneg]
    exact and_iff_right hherm
  have hnot := not_congr (hforms.symm.trans hvalues)
  push Not at hnot
  exact hnot

lemma exists_form_pos_iff (hA : A.IsSymm) :
    (∃ u : Fin n → ℝ, 0 < u ⬝ᵥ A *ᵥ u) ↔ ∃ x ∈ spectrum ℝ A, 0 < x := by
  -- The negative of the matrix has the negated form and the negated spectrum.
  have hneg := exists_form_neg_iff hA.neg
  simp only [neg_mulVec, dotProduct_neg, neg_lt_zero, ← spectrum.neg_eq, Set.mem_neg] at hneg
  rw [hneg]
  constructor
  · exact fun ⟨x, hx, hlt⟩ => ⟨-x, hx, neg_pos.mpr hlt⟩
  · exact fun ⟨x, hx, hlt⟩ => ⟨-x, (neg_neg x).symm ▸ hx, neg_neg_iff_pos.mpr hlt⟩

lemma IsSpectrum.exists_smallest (h : IsSpectrum A values) (hn : 0 < n) :
    ∃ smallest, values.getLast? = some smallest ∧ smallest ∈ values ∧
      ∀ x ∈ values, smallest ≤ x := by
  have hne : values ≠ [] := List.ne_nil_of_length_pos (h.length_eq ▸ hn)
  refine ⟨values.getLast hne, List.getLast?_eq_some_getLast hne, List.getLast_mem hne, ?_⟩
  exact fun x hx => h.descending.rel_getLast hx

lemma IsSpectrum.posDef_shift_iff_smallest (h : IsSpectrum A values) (hA : A.IsSymm) {smallest : ℝ}
    (hmem : smallest ∈ values) (hle : ∀ x ∈ values, smallest ≤ x) (c : ℝ) :
    (A + c • 1).PosDef ↔ 0 < smallest + c := by
  simp only [posDef_shift_iff hA, ← h.mem_iff]
  exact ⟨fun hpos => hpos smallest hmem,
    fun hpos x hx => hpos.trans_le (add_le_add_left (hle x hx) c)⟩

end Spectrum

lemma CurvatureDiagnostics.isSaddle_iff {n : ℕ} {H : Matrix (Fin n) (Fin n) ℝ} (hH : H.IsSymm)
    {c : CurvatureDiagnostics ℝ} {values : List ℝ} (hvalues : c.eigenvalues = some values)
    (h : Spectrum.IsSpectrum H values) :
    c.isSaddle = true ↔ (∃ u : Fin n → ℝ, 0 < u ⬝ᵥ H *ᵥ u) ∧ ∃ v : Fin n → ℝ, v ⬝ᵥ H *ᵥ v < 0 := by
  rw [Spectrum.exists_form_pos_iff hH, Spectrum.exists_form_neg_iff hH]
  simp only [isSaddle, hvalues, Bool.and_eq_true, List.any_eq_true, decide_eq_true_eq, h.mem_iff]

/-- A record with what was seen of the Hessian at its old point. In a record of Newton's method the
source of the direction tells whether the damped matrix is positive definite. -/
def IterationRecord.ShowsHessian (algorithm : Algorithm) (obj : Objective ℝ) (damping : ℝ)
    (r : IterationRecord ℝ) : Prop :=
  ∃ (H : Matrix (Fin obj.dim) (Fin obj.dim) ℝ) (source : DirectionSource ℝ)
    (preconditioner : Option (List ℝ)),
    H.IsSymm ∧ obj.hessian r.wOld = some (Rows.ofMatrix H) ∧
    r.curvature = some (.ofHessian (Rows.ofMatrix H) damping source preconditioner) ∧
    (algorithm = .newton → (source = .solve .cholesky ↔ (H + damping • 1).PosDef))

namespace Method

variable {obj : Objective ℝ} {damping : ℝ} {rule : StepRule ℝ} {s t : RunState ℝ Unit}
  {record : IterationRecord ℝ}

lemma newton_steps_showsHessian (hobj : obj.HasSymmetricHessians)
    (h : (Method.newton obj damping rule).Steps obj s record t) (hs : IsSized obj obj.dim s) :
    record.ShowsHessian .newton obj damping ∧ IsSized obj obj.dim t := by
  obtain ⟨hessian, hhessian, -, hcurvature⟩ := newton_steps h
  obtain ⟨H, hH, rfl⟩ := hobj.hessian _ _ (h.points.1 ▸ hs.point) hhessian
  obtain ⟨g, hg⟩ := exists_eq_ofFn (h.gradient_length hobj.gradient hs)
  rw [hg] at hcurvature
  obtain ⟨p, -, hcertified⟩ := newtonDirection_certifies hH damping g
  exact ⟨⟨H, _, _, hH, hhessian, hcurvature, fun _ => hcertified.posDef_iff⟩,
    (newton_steps_certified hobj h hs).2⟩

lemma diagonal_steps_showsHessian (hobj : obj.HasSymmetricHessians)
    (h : (Method.diagonal obj damping rule).Steps obj s record t) (hs : IsSized obj obj.dim s) :
    record.ShowsHessian .diagonalPreconditioner obj damping ∧ IsSized obj obj.dim t := by
  obtain ⟨hessian, hhessian, -, hcurvature⟩ := diagonal_steps h
  obtain ⟨H, hH, rfl⟩ := hobj.hessian _ _ (h.points.1 ▸ hs.point) hhessian
  exact ⟨⟨H, _, _, hH, hhessian, hcurvature, nofun⟩, diagonal_steps_isSized hobj.isShaped h hs⟩

end Method

lemma run_showsHessian {algorithm : Algorithm} {obj : Objective ℝ} {options : Options ℝ}
    {trace : Trace ℝ} (halgorithm : algorithm = .newton ∨ algorithm = .diagonalPreconditioner)
    (hobj : obj.HasSymmetricHessians) (h : run algorithm obj options = .ok trace) (i : ℕ)
    (hi : i < trace.iterations.length) :
    trace.iterations[i].ShowsHessian algorithm obj options.hessianDamping := by
  rcases halgorithm with rfl | rfl
  · exact run_forall_sized_records h _
      (fun _ _ _ hs hsteps => Method.newton_steps_showsHessian hobj hsteps hs) i hi
  · exact run_forall_sized_records h _
      (fun _ _ _ hs hsteps => Method.diagonal_steps_showsHessian hobj hsteps hs) i hi

/-- In up to three dimensions the recorded eigenvalues tell whether the direction of Newton's method
comes from Cholesky factors, and whether the Hessian bends the function both ways. -/
theorem eigenvalues_tell_source_and_saddle (algorithm : Algorithm)
    (halgorithm : algorithm = .newton ∨ algorithm = .diagonalPreconditioner) (obj : Objective ℝ)
    (hobj : obj.HasSymmetricHessians) (hdim : obj.dim ≤ 3) (options : Options ℝ) (trace : Trace ℝ)
    (h : run algorithm obj options = .ok trace) (i : ℕ) (hi : i < trace.iterations.length) :
    ∃ (H : Matrix (Fin obj.dim) (Fin obj.dim) ℝ) (curvature : CurvatureDiagnostics ℝ)
      (values : List ℝ) (smallest : ℝ),
      obj.hessian trace.iterations[i].wOld = some (Rows.ofMatrix H) ∧
      trace.iterations[i].curvature = some curvature ∧ curvature.hessian = Rows.ofMatrix H ∧
      curvature.damping = options.hessianDamping ∧ curvature.eigenvalues = some values ∧
      values.getLast? = some smallest ∧ (∀ x ∈ values, smallest ≤ x) ∧
      (algorithm = .newton →
        (curvature.source = .solve .cholesky ↔ 0 < smallest + curvature.damping)) ∧
      (curvature.isSaddle = true ↔ (∃ u : Fin obj.dim → ℝ, 0 < u ⬝ᵥ H *ᵥ u) ∧
        ∃ v : Fin obj.dim → ℝ, v ⬝ᵥ H *ᵥ v < 0) := by
  have haccepted := Options.validate_eq_ok_iff_isAccepted.mp ((run_eq_ok_iff ..).mp h).1
  have hpos : 0 < obj.dim := haccepted.length ▸ List.length_pos_of_ne_nil haccepted.start
  obtain ⟨H, source, preconditioner, hH, hhessian, hcurvature, hsource⟩ :=
    run_showsHessian halgorithm hobj h i hi
  obtain ⟨values, hvalues, hspectrum⟩ := Spectrum.exists_isSpectrum hpos hdim hH
  obtain ⟨smallest, hlast, hmem, hle⟩ := hspectrum.exists_smallest hpos
  refine ⟨H, _, values, smallest, hhessian, hcurvature, rfl, rfl, hvalues, hlast, hle, ?_,
    CurvatureDiagnostics.isSaddle_iff hH hvalues hspectrum⟩
  exact fun hnewton => (hsource hnewton).trans
    (hspectrum.posDef_shift_iff_smallest hH hmem hle options.hessianDamping)

/-- The matrix of `x y + y z`, which bends upwards, downwards and not at all. -/
noncomputable def hingeMatrix : Matrix (Fin 3) (Fin 3) ℝ :=
  !![0, 1, 0; 1, 0, 1; 0, 1, 0]

noncomputable def hinge : QuadraticForm ℝ :=
  .ofMatrix hingeMatrix 0

lemma hinge_hasSymmetricHessians : hinge.objective.HasSymmetricHessians := by
  have hsymm : hingeMatrix.IsSymm := by
    ext i j
    fin_cases i <;> fin_cases j <;> rfl
  refine ⟨fun w hw => ?_, fun w rows _ hrows => ⟨hingeMatrix, hsymm, ?_⟩⟩
  · obtain ⟨w, rfl⟩ := exists_eq_ofFn hw
    exact (congrArg List.length (QuadraticForm.gradient_ofMatrix hingeMatrix 0 w)).trans
      List.length_ofFn
  · exact (Option.some_inj.mp hrows).symm

lemma hinge_form (x y z : ℝ) :
    ![x, y, z] ⬝ᵥ hingeMatrix *ᵥ ![x, y, z] = 2 * (x * y + y * z) := by
  have hgradient : hingeMatrix *ᵥ ![x, y, z] = ![y, x + z, y] := by
    ext i
    fin_cases i <;> simp [hingeMatrix, mulVec]
  rw [hgradient, vec3_dotProduct']
  ring

/-- One undamped iteration on the hinge. -/
noncomputable def hingeOptions : Options ℝ :=
  { Options.standard ⟨0, 0, 0⟩ with
    maxIter := 1
    initialPoint := [1, 0, 0]
    hessianDamping := 0 }

lemma hinge_run : ∃ trace, run .newton hinge.objective hingeOptions = .ok trace ∧
    0 < trace.iterations.length :=
  exists_trace_of_isAccepted (fun _ _ => rfl)
    (Options.isAccepted_standard le_rfl one_pos (List.cons_ne_nil _ _) le_rfl .newton)

/-- The hinge is a saddle, so without damping its first direction does not come from Cholesky
factors. -/
theorem hinge_is_saddle : ∃ trace, run .newton hinge.objective hingeOptions = .ok trace ∧
    ∃ hi : 0 < trace.iterations.length, ∃ curvature,
      trace.iterations[0].curvature = some curvature ∧ curvature.isSaddle = true ∧
      curvature.source ≠ .solve .cholesky := by
  obtain ⟨trace, hrun, hi⟩ := hinge_run
  obtain ⟨H, curvature, values, smallest, hhessian, hcurvature, -, hdamping, hvalues, -, hle,
      hsource, hsaddle⟩ :=
    eigenvalues_tell_source_and_saddle .newton (.inl rfl) hinge.objective
      hinge_hasSymmetricHessians le_rfl hingeOptions trace hrun 0 hi
  obtain rfl : hingeMatrix = H := Rows.ofMatrix_injective (Option.some_inj.mp hhessian)
  have hup : 0 < ![1, 1, 0] ⬝ᵥ hingeMatrix *ᵥ ![1, 1, 0] := by
    rw [hinge_form]
    norm_num
  have hdown : ![1, -1, 0] ⬝ᵥ hingeMatrix *ᵥ ![1, -1, 0] < 0 := by
    rw [hinge_form]
    norm_num
  have hboth : curvature.isSaddle = true := hsaddle.mpr ⟨⟨_, hup⟩, _, hdown⟩
  refine ⟨trace, hrun, hi, curvature, hcurvature, hboth, fun hcholesky => ?_⟩
  have hpositive := (hsource rfl).mp hcholesky
  have hundamped : curvature.damping = 0 := hdamping
  obtain ⟨x, hx, hneg⟩ : ∃ x ∈ values, x < 0 := by
    simp only [CurvatureDiagnostics.isSaddle, hvalues, Bool.and_eq_true, List.any_eq_true,
      decide_eq_true_eq] at hboth
    exact hboth.2
  have hsmallest := hle x hx
  linarith

end Downhill
