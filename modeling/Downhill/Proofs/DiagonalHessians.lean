import Mathlib.Algebra.Order.Star.Real
import Downhill.Proofs.NewtonCertificate
import Downhill.Proofs.RunsInStep

/-!
# Diagonal Hessians

Where the Hessian is diagonal and its damped entries are positive, scaling the gradient by the
inverse diagonal solves the damped Newton system. The Cholesky factors solve it as well, and the
solution is unique. So the method that reads the diagonal only and Newton's method are in step, and
what is left to differ in their records is where they say the direction comes from.
-/

namespace Downhill
open Matrix

section Views

variable {F : Type}

/-- What was seen of the second derivatives, whatever it was used for. -/
def CurvatureDiagnostics.withoutSource (c : CurvatureDiagnostics F) : CurvatureDiagnostics F :=
  { c with
    source := .steepestDescentFallback
    preconditioner := none }

def IterationRecord.withoutSource (r : IterationRecord F) : IterationRecord F :=
  { r with curvature := r.curvature.map (·.withoutSource) }

lemma IterationRecord.isView_withoutSource [Arithmetic F] :
    IsView (withoutSource : IterationRecord F → IterationRecord F) :=
  ⟨fun _ => rfl, fun _ => rfl⟩

end Views

/-- An objective whose gradients and Hessians have its dimension, the Hessians being diagonal with
positive entries once they are damped. -/
structure Objective.HasDiagonalHessians (obj : Objective ℝ) (damping : ℝ) : Prop where
  gradient : ∀ w, w.length = obj.dim → (obj.gradient w).length = obj.dim
  hessian : ∀ w, w.length = obj.dim → ∃ d : Fin obj.dim → ℝ,
    obj.hessian w = some (Rows.ofMatrix (Matrix.diagonal d)) ∧ ∀ i, 0 < d i + damping

lemma Objective.HasDiagonalHessians.symmetric {obj : Objective ℝ} {damping : ℝ}
    (h : obj.HasDiagonalHessians damping) : obj.HasSymmetricHessians := by
  refine ⟨h.gradient, fun w rows hw hrows => ?_⟩
  obtain ⟨d, hessian, -⟩ := h.hessian w hw
  exact ⟨diagonal d, isSymm_diagonal d, Option.some_inj.mp (hrows.symm.trans hessian)⟩

lemma Objective.HasDiagonalHessians.isSome_hessian {obj : Objective ℝ} {damping : ℝ}
    (h : obj.HasDiagonalHessians damping) (w : List ℝ) (hw : w.length = obj.dim) :
    (obj.hessian w).isSome := by
  obtain ⟨d, hessian, -⟩ := h.hessian w hw
  exact Option.isSome_of_eq_some hessian

section Directions

variable {n : ℕ} {d : Fin n → ℝ} {damping : ℝ}

/-- The solution of a damped diagonal system for the negative of `g`. -/
noncomputable def scaledDescent (d : Fin n → ℝ) (damping : ℝ) (g : Fin n → ℝ) : List ℝ :=
  List.ofFn fun i => -(1 / (d i + damping) * g i)

lemma inverseEntry?_of_pos {x : ℝ} (hx : 0 < x) : inverseEntry? x = some (1 / x) := by
  have hzero : (x == 0) = false := decide_eq_false hx.ne'
  have hfinite : Arithmetic.isFinite (1 / x) = true := rfl
  unfold inverseEntry?
  simp only [hzero, hfinite, Bool.not_true, Bool.or_self, Bool.false_eq_true, if_false]

lemma diagonalHeading_direction (hd : ∀ i, 0 < d i + damping) (g : Fin n → ℝ) :
    (Method.diagonalHeading damping (Rows.ofMatrix (Matrix.diagonal d)) (List.ofFn g)).direction =
      scaledDescent d damping g := by
  have hinverse : (inverseDiagonal (Rows.ofMatrix (Matrix.diagonal d)) damping).1 =
      List.ofFn fun i => 1 / (d i + damping) := by
    simp only [inverseDiagonal, Rows.diagonal_ofMatrix, diagonal_apply_eq, List.map_ofFn]
    congr 1
    funext i
    simp only [Function.comp_apply, inverseEntry?_of_pos (hd i), Option.getD_some]
  rw [Method.diagonalHeading, scaledDescent]
  simp only [hinverse, zipWith_ofFn]

lemma newtonDirection_diagonal (hd : ∀ i, 0 < d i + damping) (g : Fin n → ℝ) :
    (newtonDirection (Rows.ofMatrix (Matrix.diagonal d)) damping (List.ofFn g)).1 =
      scaledDescent d damping g := by
  have hdamped : diagonal d + damping • (1 : Matrix (Fin n) (Fin n) ℝ) =
      diagonal fun i => d i + damping := by
    rw [smul_one_eq_diagonal, diagonal_add]
  have hdefinite : (diagonal d + damping • (1 : Matrix (Fin n) (Fin n) ℝ)).PosDef :=
    hdamped ▸ PosDef.diagonal hd
  obtain ⟨p, hp, hcertified⟩ := newtonDirection_certifies (isSymm_diagonal d) damping g
  have hsource := hcertified.posDef_iff.mpr hdefinite
  rw [hsource] at hcertified
  have hsolution := hcertified.2
  rw [hdamped] at hsolution
  rw [hp, scaledDescent]
  congr 1
  funext i
  have hentry := congrFun hsolution i
  rw [mulVec_diagonal, Pi.neg_apply] at hentry
  have hne := (hd i).ne'
  field_simp
  linarith

end Directions

/-- A record of a step along the solution of a damped diagonal system, wherever that comes from. -/
structure IterationRecord.IsScaled {n : ℕ} (d : Fin n → ℝ) (damping : ℝ) (g : Fin n → ℝ)
    (r : IterationRecord ℝ) : Prop where
  direction : r.direction = scaledDescent d damping g
  curvature : ∃ source preconditioner, r.curvature =
    some (.ofHessian (Rows.ofMatrix (Matrix.diagonal d)) damping source preconditioner)
  lbfgs : r.lbfgs = none

namespace Method

variable {obj : Objective ℝ} {damping : ℝ} {rule : StepRule ℝ} {r : IterationRecord ℝ}

section Steps

variable {s t : RunState ℝ Unit} {n : ℕ} {d g : Fin n → ℝ}

lemma diagonal_steps_isScaled (h : (Method.diagonal obj damping rule).Steps obj s r t)
    (hessian : obj.hessian r.wOld = some (Rows.ofMatrix (Matrix.diagonal d)))
    (hd : ∀ i, 0 < d i + damping) (hg : r.gradient = List.ofFn g) : r.IsScaled d damping g := by
  obtain ⟨rows, hrows, hdirection, hcurvature⟩ := diagonal_steps h
  obtain rfl := Option.some_inj.mp (hrows.symm.trans hessian)
  refine ⟨?_, ⟨_, _, hcurvature⟩, h.lbfgs_eq_none fun _ _ _ _ => rfl⟩
  rw [hdirection, hg, diagonalHeading_direction hd]

lemma newton_steps_isScaled (h : (Method.newton obj damping rule).Steps obj s r t)
    (hessian : obj.hessian r.wOld = some (Rows.ofMatrix (Matrix.diagonal d)))
    (hd : ∀ i, 0 < d i + damping) (hg : r.gradient = List.ofFn g) : r.IsScaled d damping g := by
  obtain ⟨rows, hrows, hdirection, hcurvature⟩ := newton_steps h
  obtain rfl := Option.some_inj.mp (hrows.symm.trans hessian)
  refine ⟨?_, ⟨_, _, hcurvature⟩, h.lbfgs_eq_none fun _ _ _ _ => rfl⟩
  rw [hdirection, hg, newtonDirection_diagonal hd]

lemma Steps.exists_diagonal {method : Method ℝ Unit} (h : method.Steps obj s r t)
    (hobj : obj.HasDiagonalHessians damping) (hs : IsSized obj obj.dim s) :
    ∃ d g : Fin obj.dim → ℝ, obj.hessian r.wOld = some (Rows.ofMatrix (Matrix.diagonal d)) ∧
      (∀ i, 0 < d i + damping) ∧ r.gradient = List.ofFn g := by
  obtain ⟨d, hessian, hd⟩ := hobj.hessian r.wOld (h.points.1 ▸ hs.point)
  obtain ⟨g, hg⟩ := exists_eq_ofFn (h.gradient_length hobj.gradient hs)
  exact ⟨d, g, hessian, hd, hg⟩

end Steps

/-- States of both methods at one point of the dimension of the objective. -/
structure SharesPoint (obj : Objective ℝ) (s s' : RunState ℝ Unit) : Prop
    extends s.SamePlace s' where
  sized : IsSized obj obj.dim s

lemma diagonal_inStep_newton (hobj : obj.HasDiagonalHessians damping) :
    (Method.diagonal obj damping rule).InStep (Method.newton obj damping rule) obj
      IterationRecord.withoutSource (fun _ => True) (SharesPoint obj) := by
  intro s s' r r' t t' hs h h'
  obtain ⟨d, g, hessian, hd, hg⟩ := h.exists_diagonal hobj hs.sized
  have hpoint : r'.wOld = r.wOld := by rw [h.points.1, h'.points.1, hs.current]
  have hgradient : r'.gradient = r.gradient := by rw [h.gradient_eq, h'.gradient_eq, hs.current]
  have hscaled := diagonal_steps_isScaled h hessian hd hg
  have hscaled' := newton_steps_isScaled h' (hpoint ▸ hessian) hd (hgradient.trans hg)
  have hsame : r.direction = r'.direction := hscaled.direction.trans hscaled'.direction.symm
  obtain ⟨hplace, hrecord⟩ := h.samePlace h' hs.toSamePlace rfl hsame
  refine ⟨?_, fun _ => ⟨hplace, diagonal_steps_isSized hobj.symmetric.isShaped h hs.sized⟩⟩
  obtain ⟨source, preconditioner, hcurvature⟩ := hscaled.curvature
  obtain ⟨source', preconditioner', hcurvature'⟩ := hscaled'.curvature
  rw [hrecord, hcurvature', hscaled'.lbfgs, ← hscaled.lbfgs]
  simp only [IterationRecord.withoutSource, hcurvature]
  rfl

end Method

lemma Options.validate_diagonal {o : Options ℝ} {dim : ℕ} {hasHessian : Bool}
    (h : o.validate .newton dim hasHessian = .ok ()) :
    o.validate .diagonalPreconditioner dim hasHessian = .ok () := by
  rw [validate_eq_ok_iff_isAccepted] at h ⊢
  exact ⟨h.start, h.length, h.maxIter, nofun, h.hessian, h.damping, nofun, h.c1, h.trials, h.gtol,
    h.ftol, h.xtol⟩

/-- On an objective with diagonal Hessians whose damped entries are positive, the method with the
inverse diagonal and Newton's method leave the same traces but for the sources of the
directions. -/
theorem diagonal_run_is_newton_run (obj : Objective ℝ) (options : Options ℝ)
    (hobj : obj.HasDiagonalHessians options.hessianDamping)
    (hvalid : options.validate .newton obj.dim obj.hasHessian = .ok ()) :
    ∃ trace trace', run .diagonalPreconditioner obj options = .ok trace ∧
      run .newton obj options = .ok trace' ∧
      trace.iterations.length = trace'.iterations.length ∧
      trace.termination = trace'.termination ∧ trace.evaluations = trace'.evaluations ∧
      trace.iterations.map (·.withoutSource) = trace'.iterations.map (·.withoutSource) := by
  have hvalid' := Options.validate_diagonal hvalid
  have hshaped := hobj.symmetric.isShaped
  obtain ⟨trace, hrun⟩ := exists_trace_of_isShaped hshaped (fun _ => hobj.isSome_hessian) hvalid'
    (options.hasRoom_real _)
  obtain ⟨trace', hrun'⟩ := exists_trace_of_isShaped hshaped (fun _ => hobj.isSome_hessian) hvalid
    (options.hasRoom_real _)
  have hstart : Method.SharesPoint obj
      ((Method.diagonal obj options.hessianDamping options.stepRule).startState obj options)
      ((Method.newton obj options.hessianDamping options.stepRule).startState obj options) :=
    ⟨⟨rfl, rfl⟩, Method.isSized_startState hvalid'⟩
  obtain ⟨hiterations, htermination, hevaluations⟩ := (run_inStep hrun hrun'
    (Method.diagonal_inStep_newton hobj) IterationRecord.isView_withoutSource hstart rfl rfl
    trace.iterations.length fun _ _ => trivial).2 (.inl (Nat.le_succ _))
  have hlength : trace.iterations.length = trace'.iterations.length := by
    simpa using congrArg List.length hiterations
  exact ⟨trace, trace', hrun, hrun', hlength, htermination, hevaluations, hiterations⟩

/-- A damping that outweighs the downward curvature of the saddle. -/
noncomputable def dampedSaddleOptions : Options ℝ :=
  { saddleOptions with hessianDamping := 3.0 }

lemma saddle_hasDiagonalHessians :
    (AnalyticProblem.saddle.objective : Objective ℝ).HasDiagonalHessians 3.0 := by
  have hdiagonal : saddleMatrix = diagonal ![2.0, -2.0] := by
    ext i j
    fin_cases i <;> fin_cases j <;> rfl
  refine ⟨fun _ _ => rfl, fun w _ => ⟨![2.0, -2.0], ?_, ?_⟩⟩
  · rw [saddle_hessian, hdiagonal]
    rfl
  · change ∀ i : Fin 2, 0 < ![2.0, -2.0] i + 3.0
    rw [Fin.forall_fin_two]
    norm_num

theorem saddle_runs_agree : ∃ trace trace',
    run .diagonalPreconditioner (AnalyticProblem.saddle.objective : Objective ℝ)
        dampedSaddleOptions = .ok trace ∧
      run .newton (AnalyticProblem.saddle.objective : Objective ℝ) dampedSaddleOptions =
        .ok trace' ∧
      trace.evaluations = trace'.evaluations ∧
      trace.iterations.map (·.withoutSource) = trace'.iterations.map (·.withoutSource) := by
  have hdamping : (0 : ℝ) ≤ 3.0 := by norm_num
  have hvalid : dampedSaddleOptions.validate .newton 2 true = .ok () :=
    Options.validate_eq_ok_iff_isAccepted.mpr (Options.isAccepted_standard le_rfl (Nat.succ_pos 3)
      (List.cons_ne_nil _ _) hdamping .newton)
  obtain ⟨trace, trace', hrun, hrun', -, -, hevaluations, hiterations⟩ :=
    diagonal_run_is_newton_run _ dampedSaddleOptions saddle_hasDiagonalHessians hvalid
  exact ⟨trace, trace', hrun, hrun', hevaluations, hiterations⟩

end Downhill
