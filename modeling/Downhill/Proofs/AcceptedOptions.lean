import Downhill.Proofs.RealMatrices
import Downhill.Proofs.ExactStopping

/-!
# Accepted options

Over the real numbers, where every number is finite and comparable, the checks before a run come
down to inequalities. `Options.IsAccepted` lists them, and the check of the options passes exactly
when they hold.
-/

namespace Downhill

/-- What a method asks of its options over the real numbers. -/
structure Options.IsAccepted (o : Options ℝ) (algorithm : Algorithm) (dim : ℕ)
    (hasHessian : Bool) : Prop where
  start : o.initialPoint ≠ []
  length : o.initialPoint.length = dim
  maxIter : 0 < o.maxIter
  memory : algorithm = .lbfgs → 0 < o.memory
  hessian : algorithm.needsHessian = true → hasHessian = true
  damping : algorithm.needsHessian = true → 0 ≤ o.hessianDamping
  alpha : algorithm = .gradientDescent → 0 < o.alpha
  c1 : algorithm.usesLineSearch o.lineSearch = true → 0 < o.c1 ∧ o.c1 < 1
  trials : algorithm.usesLineSearch o.lineSearch = true → 0 < o.maxLineSearchTrials
  gtol : 0 ≤ o.termination.gtol
  ftol : 0 ≤ o.termination.ftol
  xtol : 0 ≤ o.termination.xtol

lemma Tolerances.isValid_iff (tol : ℝ) : isValid tol = true ↔ 0 ≤ tol := by
  simp [isValid, isNaN_eq_false]

lemma Tolerances.fault?_eq_none_iff (t : Tolerances ℝ) :
    t.fault? = none ↔ 0 ≤ t.gtol ∧ 0 ≤ t.ftol ∧ 0 ≤ t.xtol := by
  simp only [fault?, ite_some_eq_none_iff, Bool.not_eq_true', Bool.not_eq_false, isValid_iff,
    and_true]

lemma Options.validate_eq_ok_iff_isAccepted {o : Options ℝ} {algorithm : Algorithm} {dim : ℕ}
    {hasHessian : Bool} :
    o.validate algorithm dim hasHessian = .ok () ↔ o.IsAccepted algorithm dim hasHessian := by
  rw [validate_eq_ok_iff]
  constructor
  · intro h
    obtain ⟨hgtol, hftol, hxtol⟩ := (Tolerances.fault?_eq_none_iff _).mp h.tolerances
    exact ⟨h.start, h.length, h.maxIter, h.memory, h.hessian,
      fun hneeds => not_lt.mp (h.damping hneeds).2,
      fun hfixed => not_le.mp (h.alpha hfixed).2, h.c1, h.trials, hgtol, hftol, hxtol⟩
  · intro h
    exact ⟨h.start, h.length, h.maxIter, h.memory, h.hessian,
      fun hneeds => ⟨rfl, not_lt.mpr (h.damping hneeds)⟩,
      fun hfixed => ⟨rfl, not_le.mpr (h.alpha hfixed)⟩, h.c1, h.trials,
      (Tolerances.fault?_eq_none_iff _).mpr ⟨h.gtol, h.ftol, h.xtol⟩⟩

/-- The limited memory method reads neither a fixed step nor second derivatives. -/
lemma Options.isAccepted_lbfgs {o : Options ℝ} {dim : ℕ} {hasHessian : Bool} (hdim : 0 < dim)
    (hlength : o.initialPoint.length = dim) (hiter : 0 < o.maxIter) (hmemory : 0 < o.memory)
    (hc1 : 0 < o.c1 ∧ o.c1 < 1) (htrials : 0 < o.maxLineSearchTrials)
    (htolerances : o.termination.fault? = none) : o.IsAccepted .lbfgs dim hasHessian := by
  obtain ⟨hgtol, hftol, hxtol⟩ := (Tolerances.fault?_eq_none_iff _).mp htolerances
  have hneeds : Algorithm.lbfgs.needsHessian ≠ true := Bool.false_ne_true
  exact {
    start := List.ne_nil_of_length_pos (hlength ▸ hdim)
    length := hlength
    maxIter := hiter
    memory := fun _ => hmemory
    hessian := fun h => absurd h hneeds
    damping := fun h => absurd h hneeds
    alpha := fun h => by cases h
    c1 := fun _ => hc1
    trials := fun _ => htrials
    gtol := hgtol
    ftol := hftol
    xtol := hxtol }

/-- The usual options, from a start point of the right dimension, are accepted by every method. -/
lemma Options.isAccepted_standard {gtol : ℝ} (hgtol : 0 ≤ gtol) {maxIter : ℕ} (hiter : 0 < maxIter)
    {start : List ℝ} (hstart : start ≠ []) {damping : ℝ} (hdamping : 0 ≤ damping)
    (algorithm : Algorithm) :
    ({ Options.standard ⟨gtol, 0, 0⟩ with
        maxIter := maxIter
        initialPoint := start
        hessianDamping := damping } : Options ℝ).IsAccepted algorithm start.length true := by
  have halpha : (0 : ℝ) < 0.1 := by norm_num
  have hc1 : (0 : ℝ) < 1e-4 ∧ (1e-4 : ℝ) < 1 := by norm_num
  exact ⟨hstart, rfl, hiter, fun _ => Nat.succ_pos 4, fun _ => rfl, fun _ => hdamping,
    fun _ => halpha, fun _ => hc1, fun _ => Nat.succ_pos 19, hgtol, le_rfl, le_rfl⟩

/-- Real numbers take no room. -/
lemma Options.hasRoom_real (o : Options ℝ) (algorithm : Algorithm) : o.HasRoom algorithm :=
  ⟨fun _ => rfl, fun _ => rfl⟩

lemma exists_trace_of_isAccepted {algorithm : Algorithm} {obj : Objective ℝ} {options : Options ℝ}
    (hhessian : obj.hasHessian = true → ∀ w, (obj.hessian w).isSome)
    (h : options.IsAccepted algorithm obj.dim obj.hasHessian) :
    ∃ trace, run algorithm obj options = .ok trace ∧ 0 < trace.iterations.length := by
  have hvalid := Options.validate_eq_ok_iff_isAccepted.mpr h
  obtain ⟨trace, hrun⟩ := exists_trace_of_hessian algorithm obj options
    (fun hneeds => hhessian (h.hessian hneeds)) hvalid (options.hasRoom_real algorithm)
  exact ⟨trace, hrun, (run_stoppedBy hrun).length_pos⟩

end Downhill
