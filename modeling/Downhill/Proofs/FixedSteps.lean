import Downhill.Proofs.AcceptedOptions
import Downhill.Proofs.QuadraticValues

/-!
# Fixed steps on quadratic forms

On a quadratic form a fixed step along the negative gradient multiplies the distance to a solution of
`A w = b` by `1 - alpha A`, and changes the value by a form of the gradient in `alpha A - 2`. So the
points of a run are powers of one matrix, and whether the values fall or rise is decided by the side
of two on which the curvature times the step lies.
-/

namespace Downhill
open Matrix

variable {n : ℕ} {A : Matrix (Fin n) (Fin n) ℝ} {b z e : Fin n → ℝ} {alpha mu : ℝ}

/-- The point after `k` fixed steps from `w`, seen from the solution `z`. -/
noncomputable def fixedStepPoint (A : Matrix (Fin n) (Fin n) ℝ) (alpha : ℝ) (z w : Fin n → ℝ)
    (k : ℕ) : Fin n → ℝ :=
  z + (1 - alpha • A) ^ k *ᵥ (w - z)

lemma fixedStepPoint_zero (A : Matrix (Fin n) (Fin n) ℝ) (alpha : ℝ) (z w : Fin n → ℝ) :
    fixedStepPoint A alpha z w 0 = w := by
  rw [fixedStepPoint, pow_zero, one_mulVec, add_sub_cancel]

lemma fixedStepPoint_succ (hz : A *ᵥ z = b) (alpha : ℝ) (w : Fin n → ℝ) (k : ℕ) :
    fixedStepPoint A alpha z w (k + 1) =
      fixedStepPoint A alpha z w k - alpha • (A *ᵥ fixedStepPoint A alpha z w k - b) := by
  have hgradient : A *ᵥ fixedStepPoint A alpha z w k - b =
      A *ᵥ ((1 - alpha • A) ^ k *ᵥ (w - z)) := by
    rw [fixedStepPoint, mulVec_add, hz, add_sub_cancel_left]
  rw [hgradient, fixedStepPoint, fixedStepPoint, pow_succ', ← mulVec_mulVec, sub_mulVec, one_mulVec,
    smul_mulVec, add_sub_assoc]

lemma pow_mulVec_eigenvector (he : A *ᵥ e = mu • e) (alpha : ℝ) (k : ℕ) :
    (1 - alpha • A) ^ k *ᵥ e = (1 - alpha * mu) ^ k • e := by
  induction k with
  | zero => simp
  | succ k ih =>
    have hstep : (1 - alpha • A) *ᵥ e = (1 - alpha * mu) • e := by
      rw [sub_mulVec, one_mulVec, smul_mulVec, he, smul_smul, sub_smul, one_smul]
    rw [pow_succ', ← mulVec_mulVec, ih, mulVec_smul, hstep, smul_smul, pow_succ]

/-- From a solution on along an eigenvector, the gradients are multiples of that eigenvector. -/
lemma gradient_fixedStepPoint (hz : A *ᵥ z = b) {w : Fin n → ℝ}
    (he : A *ᵥ (w - z) = mu • (w - z)) (alpha : ℝ) (k : ℕ) :
    A *ᵥ fixedStepPoint A alpha z w k - b = (mu * (1 - alpha * mu) ^ k) • (w - z) := by
  rw [fixedStepPoint, mulVec_add, hz, add_sub_cancel_left, pow_mulVec_eigenvector he, mulVec_smul, he,
    smul_smul, mul_comm]

/-- A record of a fixed step from `w` along the negative gradient of a quadratic form. -/
structure IterationRecord.IsFixedStep (A : Matrix (Fin n) (Fin n) ℝ) (b : Fin n → ℝ) (alpha : ℝ)
    (w : Fin n → ℝ) (r : IterationRecord ℝ) : Prop where
  gradient : r.gradient = List.ofFn (A *ᵥ w - b)
  wNew : r.wNew = List.ofFn (w - alpha • (A *ᵥ w - b))
  loss : r.loss = (QuadraticForm.ofMatrix A b).objective.value (List.ofFn w)
  newLoss : r.newLoss =
    (QuadraticForm.ofMatrix A b).objective.value (List.ofFn (w - alpha • (A *ᵥ w - b)))

namespace IterationRecord.IsFixedStep

variable {w : Fin n → ℝ} {r : IterationRecord ℝ}

lemma newLoss_eq (h : r.IsFixedStep A b alpha w) (hA : A.IsSymm) :
    r.newLoss = r.loss + alpha / 2 *
      (alpha * ((A *ᵥ w - b) ⬝ᵥ A *ᵥ (A *ᵥ w - b)) - 2 * ((A *ᵥ w - b) ⬝ᵥ (A *ᵥ w - b))) := by
  have hvalue := QuadraticForm.value_add (b := b) (w := w) (p := -(alpha • (A *ᵥ w - b))) hA
  rw [h.newLoss, h.loss, sub_eq_add_neg, hvalue]
  simp only [mulVec_neg, mulVec_smul, dotProduct_neg, neg_dotProduct, dotProduct_smul,
    smul_dotProduct, smul_eq_mul]
  ring

/-- Below two the value falls, unless the gradient is zero. -/
lemma newLoss_lt (h : r.IsFixedStep A b alpha w) (hA : A.IsSymm) (halpha : 0 < alpha)
    (hstable : ∀ v : Fin n → ℝ, v ≠ 0 → alpha * (v ⬝ᵥ A *ᵥ v) < 2 * (v ⬝ᵥ v))
    (hne : ¬ ∀ x ∈ r.gradient, x = 0) : r.newLoss < r.loss := by
  have hg : A *ᵥ w - b ≠ 0 := by
    rwa [h.gradient, ← coords_eq_zero_iff List.length_ofFn, coords_ofFn] at hne
  have hchange := mul_neg_of_pos_of_neg (half_pos halpha) (sub_neg.mpr (hstable _ hg))
  rw [h.newLoss_eq hA]
  linarith

/-- Above two the value rises along an eigenvector. -/
lemma loss_lt (h : r.IsFixedStep A b alpha w) (hA : A.IsSymm) (halpha : 0 < alpha)
    (hg : A *ᵥ w - b ≠ 0) (heigen : A *ᵥ (A *ᵥ w - b) = mu • (A *ᵥ w - b))
    (hunstable : 2 < alpha * mu) : r.loss < r.newLoss := by
  have hrise : 0 < (alpha * mu - 2) * ((A *ᵥ w - b) ⬝ᵥ (A *ᵥ w - b)) :=
    mul_pos (by linarith) (dotProduct_self_pos hg)
  have hchange := mul_pos (half_pos halpha) hrise
  rw [h.newLoss_eq hA, heigen, dotProduct_smul, smul_eq_mul]
  linarith

end IterationRecord.IsFixedStep

namespace Method

variable {s t : RunState ℝ Unit} {record : IterationRecord ℝ}

lemma steepest_steps_isFixedStep {w : Fin n → ℝ}
    (h : (Method.steepest (.fixed alpha)).Steps (QuadraticForm.ofMatrix A b).objective s record t)
    (hs : s.current.Faithful (QuadraticForm.ofMatrix A b).objective)
    (hw : s.current.point = List.ofFn w) : record.IsFixedStep A b alpha w := by
  obtain ⟨hfaithful, -⟩ := h.faithful hs
  have hold : record.wOld = List.ofFn w := h.points.1.trans hw
  have hgradient : record.gradient = List.ofFn (A *ᵥ w - b) := by
    rw [hfaithful.gradient, hold, QuadraticForm.gradient_ofMatrix]
  have hnew : record.wNew = List.ofFn (w - alpha • (A *ᵥ w - b)) := by
    rw [hfaithful.wNew, (h.fixed rfl).1, hold, (steepest_steps h).1, hgradient, neg_ofFn, along_ofFn,
      smul_neg, ← sub_eq_add_neg]
  exact ⟨hgradient, hnew, by rw [hfaithful.loss, hold], by rw [hfaithful.newLoss, hnew]⟩

end Method

/-- The records of a run are fixed steps from the powers of one matrix. -/
lemma run_isFixedStep {options : Options ℝ} {trace : Trace ℝ}
    (h : run .gradientDescent (QuadraticForm.ofMatrix A b).objective options = .ok trace)
    (hz : A *ᵥ z = b) (k : ℕ) (hk : k < trace.iterations.length) :
    trace.iterations[k].IsFixedStep A b options.alpha
      (fixedStepPoint A options.alpha z (coords n options.initialPoint) k) := by
  have hvalid := ((run_eq_ok_iff ..).mp h).1
  have hlength : options.initialPoint.length = n :=
    (Options.validate_eq_ok_iff.mp hvalid).length.trans (QuadraticForm.dim_ofMatrix A b)
  obtain ⟨states, hfirst, -, hist⟩ := run_history h
  have hstart : (states 0).current.point = List.ofFn
      (fixedStepPoint A options.alpha z (coords n options.initialPoint) 0) := by
    rw [hfirst, fixedStepPoint_zero, ofFn_coords hlength]
    rfl
  have hfaithful := hist.faithful (by rw [hfirst]; exact ⟨rfl, rfl⟩)
  have hpoints := hist.invariant (fun k s => s.current.point = List.ofFn
    (fixedStepPoint A options.alpha z (coords n options.initialPoint) k)) hstart
    fun k hk hs hstep => by
      have hrecord := Method.steepest_steps_isFixedStep hstep (hfaithful k hk.le) hs
      rw [← hstep.points.2, hrecord.wNew, ← fixedStepPoint_succ hz]
  exact Method.steepest_steps_isFixedStep (hist.steps k hk) (hfaithful k hk.le) (hpoints k hk.le)

/-- Steepest descent with an accepted fixed step on a quadratic form, seen from a solution: the points
are powers of one matrix. If the step times the curvature is below two everywhere, the value falls as
long as the gradient is not zero; if it is above two along the eigenvector on which the run starts,
the value rises in every record. -/
theorem fixed_step_stability {n : ℕ} (A : Matrix (Fin n) (Fin n) ℝ) (hA : A.IsSymm)
    (b z : Fin n → ℝ) (hz : A *ᵥ z = b) (options : Options ℝ)
    (hvalid : options.validate .gradientDescent (QuadraticForm.ofMatrix A b).objective.dim
      (QuadraticForm.ofMatrix A b).objective.hasHessian = .ok ()) :
    ∃ trace, run .gradientDescent (QuadraticForm.ofMatrix A b).objective options = .ok trace ∧
      (∀ k (hk : k < trace.iterations.length), ∃ v : Fin n → ℝ,
        trace.iterations[k].wNew = List.ofFn v ∧
        v - z = (1 - options.alpha • A) ^ (k + 1) *ᵥ (coords n options.initialPoint - z)) ∧
      ((∀ v : Fin n → ℝ, v ≠ 0 → options.alpha * (v ⬝ᵥ A *ᵥ v) < 2 * (v ⬝ᵥ v)) →
        ∀ r ∈ trace.iterations, (¬ ∀ x ∈ r.gradient, x = 0) → r.newLoss < r.loss) ∧
      ∀ mu, coords n options.initialPoint - z ≠ 0 →
        A *ᵥ (coords n options.initialPoint - z) = mu • (coords n options.initialPoint - z) →
        2 < options.alpha * mu → ∀ r ∈ trace.iterations, r.loss < r.newLoss := by
  obtain ⟨trace, hrun⟩ := exists_trace_of_firstOrder rfl hvalid (options.hasRoom_real _)
  have halpha : 0 < options.alpha := (Options.validate_eq_ok_iff_isAccepted.mp hvalid).alpha rfl
  have hsteps := run_isFixedStep hrun hz
  refine ⟨trace, hrun, fun k hk => ?_, fun hstable r hr hne => ?_, ?_⟩
  · refine ⟨_, (hsteps k hk).wNew, ?_⟩
    rw [← fixedStepPoint_succ hz, fixedStepPoint, add_sub_cancel_left]
  · obtain ⟨k, hk, rfl⟩ := List.mem_iff_getElem.mp hr
    exact (hsteps k hk).newLoss_lt hA halpha hstable hne
  · intro mu hstart heigen hunstable r hr
    obtain ⟨k, hk, rfl⟩ := List.mem_iff_getElem.mp hr
    have hgradient := gradient_fixedStepPoint hz heigen options.alpha k
    have hmu : mu ≠ 0 := by
      rintro rfl
      linarith
    have hbase : 1 - options.alpha * mu ≠ 0 := by linarith
    refine (hsteps k hk).loss_lt hA halpha ?_ ?_ hunstable
    · rw [hgradient]
      exact smul_ne_zero (mul_ne_zero hmu (pow_ne_zero k hbase)) hstart
    · rw [hgradient, mulVec_smul, heigen, smul_comm]

/-- Fixed steps from a point off the solution `(1, 1)` along the direction of the largest curvature. -/
noncomputable def ovalStepOptions (alpha : ℝ) : Options ℝ :=
  { Options.standard ⟨0, 0, 0⟩ with
    initialPoint := [0, 0]
    alpha := alpha }

lemma ovalStepOptions_valid {alpha : ℝ} (halpha : 0 < alpha) :
    (ovalStepOptions alpha).validate .gradientDescent
      (QuadraticForm.ofMatrix ovalMatrix ((3 : ℝ) • 1)).objective.dim
      (QuadraticForm.ofMatrix ovalMatrix ((3 : ℝ) • 1)).objective.hasHessian = .ok () := by
  have hdamping : (0 : ℝ) ≤ 0.01 := by norm_num
  have hiter : 0 < 100 := by norm_num
  have hstandard := Options.isAccepted_standard le_rfl hiter (List.cons_ne_nil (0 : ℝ) [0]) hdamping
    .gradientDescent
  apply Options.validate_eq_ok_iff_isAccepted.mpr
  exact { hstandard with alpha := fun _ => halpha }

lemma ovalMatrix_one : ovalMatrix *ᵥ (1 : Fin 2 → ℝ) = (3 : ℝ) • 1 := by
  have htwo : (1 : Fin 2 → ℝ) ⬝ᵥ 1 = 2 := by simp
  rw [ovalMatrix, add_mulVec, one_mulVec, vecMulVec_mulVec, op_smul_eq_smul, htwo]
  funext i
  norm_num

/-- The largest curvature is three, so half a unit is a stable step and a unit is not. -/
theorem oval_steps_fall_or_rise :
    (∃ trace, run .gradientDescent (QuadraticForm.ofMatrix ovalMatrix ((3 : ℝ) • 1)).objective
        (ovalStepOptions (1 / 2)) = .ok trace ∧
      ∀ r ∈ trace.iterations, (¬ ∀ x ∈ r.gradient, x = 0) → r.newLoss < r.loss) ∧
    ∃ trace, run .gradientDescent (QuadraticForm.ofMatrix ovalMatrix ((3 : ℝ) • 1)).objective
        (ovalStepOptions 1) = .ok trace ∧
      trace.iterations ≠ [] ∧ ∀ r ∈ trace.iterations, r.loss < r.newLoss := by
  constructor
  · obtain ⟨trace, hrun, -, hstable, -⟩ := fixed_step_stability ovalMatrix ovalMatrix_isSymm _ 1
      ovalMatrix_one (ovalStepOptions (1 / 2)) (ovalStepOptions_valid one_half_pos)
    refine ⟨trace, hrun, hstable fun v hv => ?_⟩
    have hpos := dotProduct_self_pos hv
    have htwo : (1 : Fin 2 → ℝ) ⬝ᵥ 1 = 2 := by simp
    have hshare := dotProduct_sq_le 1 v
    have halpha : (ovalStepOptions (1 / 2)).alpha = 1 / 2 := rfl
    rw [htwo] at hshare
    rw [halpha, ovalMatrix_form]
    linarith
  · obtain ⟨trace, hrun, -, -, hunstable⟩ := fixed_step_stability ovalMatrix ovalMatrix_isSymm _ 1
      ovalMatrix_one (ovalStepOptions 1) (ovalStepOptions_valid one_pos)
    have hstart : coords 2 (ovalStepOptions 1).initialPoint - 1 = -1 := by
      funext i
      fin_cases i <;> exact zero_sub 1
    have heigen : ovalMatrix *ᵥ (-1 : Fin 2 → ℝ) = (3 : ℝ) • -1 := by
      rw [mulVec_neg, ovalMatrix_one, smul_neg]
    have halpha : (ovalStepOptions 1).alpha = 1 := rfl
    rw [hstart, halpha] at hunstable
    have hne := List.ne_nil_of_length_pos (run_stoppedBy hrun).length_pos
    exact ⟨trace, hrun, hne, hunstable 3 (neg_ne_zero.mpr one_ne_zero) heigen (by norm_num)⟩

end Downhill
