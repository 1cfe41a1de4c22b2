import Downhill.Problem.Analytic
import Downhill.Proofs.RunHistory

/-!
# What a run reads

All algorithms share one record of options and one kind of objective, and each reads a part of them.
Two runs of an algorithm that agree on its part have the same answer, a trace or an error. Whatever
the rest holds is neither checked before a run nor used in it.
-/

namespace Downhill

variable {F σ : Type}

namespace Objective

structure SameFirstOrder (obj obj' : Objective F) : Prop where
  value : ∀ w, obj.value w = obj'.value w
  gradient : ∀ w, obj.gradient w = obj'.gradient w

/-- Objectives that agree on what an algorithm asks of them. -/
structure AgreeFor (algorithm : Algorithm) (obj obj' : Objective F) : Prop
    extends obj.SameFirstOrder obj' where
  dim : obj.dim = obj'.dim
  secondOrder : algorithm = .newton ∨ algorithm = .diagonalPreconditioner →
    obj.hasHessian = obj'.hasHessian ∧ ∀ w, obj.hessian w = obj'.hessian w

variable {obj obj' : Objective F} {algorithm : Algorithm}

lemma SameFirstOrder.meteredValue_eq (h : obj.SameFirstOrder obj') (w : List F) :
    obj.meteredValue w = obj'.meteredValue w := by
  simp only [meteredValue, h.value]

lemma SameFirstOrder.meteredGradient_eq (h : obj.SameFirstOrder obj') (w : List F) :
    obj.meteredGradient w = obj'.meteredGradient w := by
  simp only [meteredGradient, h.gradient]

lemma AgreeFor.eq_of_secondOrder (h : obj.AgreeFor algorithm obj')
    (halgorithm : algorithm = .newton ∨ algorithm = .diagonalPreconditioner) : obj = obj' := by
  obtain ⟨hknown, hhessian⟩ := h.secondOrder halgorithm
  have hdim := h.dim
  have hvalue := funext h.value
  have hgradient := funext h.gradient
  have hhessian := funext hhessian
  cases obj
  cases obj'
  simp_all only

end Objective

namespace Options

structure SameSearch (o o' : Options F) : Prop where
  c1 : o.c1 = o'.c1
  maxLineSearchTrials : o.maxLineSearchTrials = o'.maxLineSearchTrials

/-- Options that agree on what all algorithms read and on the part of one of them. The methods with
second derivatives read the numbers of the line search only if they search. -/
structure AgreeFor (algorithm : Algorithm) (o o' : Options F) : Prop where
  maxIter : o.maxIter = o'.maxIter
  initialPoint : o.initialPoint = o'.initialPoint
  termination : o.termination = o'.termination
  part : match algorithm with
    | .gradientDescent => o.alpha = o'.alpha
    | .gradientDescentLineSearch => o.SameSearch o'
    | .lbfgs => o.memory = o'.memory ∧ o.SameSearch o'
    | .newton | .diagonalPreconditioner =>
      o.hessianDamping = o'.hessianDamping ∧ o.lineSearch = o'.lineSearch ∧
        (o.lineSearch = .armijo → o.SameSearch o')

variable [Arithmetic F] {o o' : Options F} {algorithm : Algorithm}

lemma SameSearch.armijo_eq (h : o.SameSearch o') : o.armijo = o'.armijo := by
  simp only [armijo, h.c1, h.maxLineSearchTrials]

lemma stepRule_eq (hmode : o.lineSearch = o'.lineSearch)
    (hsearch : o.lineSearch = .armijo → o.SameSearch o') : o.stepRule = o'.stepRule := by
  unfold stepRule
  rw [← hmode]
  cases h : o.lineSearch with
  | armijo => exact congrArg StepRule.armijo (hsearch h).armijo_eq
  | off => rfl

/-- The checks before a run read no more of the options than the run, and ask whether second
derivatives are known only where they are needed. -/
lemma AgreeFor.fault?_eq (h : o.AgreeFor algorithm o') (dim : Nat) {hasHessian hasHessian' : Bool}
    (hknown : algorithm = .newton ∨ algorithm = .diagonalPreconditioner →
      hasHessian = hasHessian') :
    o.fault? algorithm dim hasHessian = o'.fault? algorithm dim hasHessian' := by
  obtain ⟨hiter, hpoint, htol, hpart⟩ := h
  unfold fault?
  rw [hiter, hpoint, htol]
  cases algorithm with
  | gradientDescent => simp [Algorithm.needsHessian, Algorithm.usesLineSearch, hpart]
  | gradientDescentLineSearch =>
    simp [Algorithm.needsHessian, Algorithm.usesLineSearch, hpart.c1, hpart.maxLineSearchTrials]
  | lbfgs =>
    obtain ⟨hmemory, hsearch⟩ := hpart
    simp [Algorithm.needsHessian, Algorithm.usesLineSearch, hmemory, hsearch.c1,
      hsearch.maxLineSearchTrials]
  | newton | diagonalPreconditioner =>
    obtain ⟨hdamping, hmode, hsearch⟩ := hpart
    rw [hknown (by simp), hdamping, ← hmode]
    by_cases harmijo : o.lineSearch = .armijo
    · simp [(hsearch harmijo).c1, (hsearch harmijo).maxLineSearchTrials]
    · simp [Algorithm.usesLineSearch, harmijo]

/-- Room is set aside for as many pairs as the memory and the iterations that are read allow. -/
lemma AgreeFor.hasPairRoom_eq (h : o.AgreeFor algorithm o') :
    o.hasPairRoom algorithm = o'.hasPairRoom algorithm := by
  obtain ⟨hiter, -, -, hpart⟩ := h
  cases algorithm with
  | lbfgs => rw [hasPairRoom, hasPairRoom, hpart.1, hiter]
  | gradientDescent | gradientDescentLineSearch | newton | diagonalPreconditioner => rfl

end Options

variable [Arithmetic F] {obj obj' : Objective F} {o o' : Options F} {algorithm : Algorithm}

namespace Objective.SameFirstOrder

lemma take_eq (h : obj.SameFirstOrder obj') (rule : StepRule F) (current : Iterate F)
    (direction : List F) : rule.take obj current direction = rule.take obj' current direction := by
  unfold StepRule.take
  simp only [funext h.meteredValue_eq]

lemma advance_eq (h : obj.SameFirstOrder obj') (method : Method F σ) (index : Nat) (memory : σ)
    (current : Iterate F) :
    method.advance obj index memory current = method.advance obj' index memory current := by
  unfold Method.advance
  simp only [h.take_eq, h.meteredGradient_eq]

/-- The loop asks for values and gradients only. What a method asks besides is in its headings. -/
lemma descend_eq (h : obj.SameFirstOrder obj') (method : Method F σ)
    (criteria : StoppingCriteria F) (budget index : Nat) (memory : σ) (current : Iterate F)
    (earlier : List (IterationRecord F)) :
    method.descend obj criteria budget index memory current earlier =
      method.descend obj' criteria budget index memory current earlier := by
  induction budget generalizing index memory current earlier with
  | zero => rfl
  | succ budget ih => simp only [Method.descend, h.advance_eq, ih]

lemma methodRun_eq (h : obj.SameFirstOrder obj') (method : Method F σ)
    (hiter : o.maxIter = o'.maxIter) (hpoint : o.initialPoint = o'.initialPoint)
    (htol : o.termination = o'.termination) : method.run obj o = method.run obj' o' := by
  have hcriteria : o.criteria = o'.criteria := by
    simp only [Options.criteria, hiter, htol]
  simp only [Method.run, Iterate.start, h.meteredValue_eq, h.meteredGradient_eq, h.descend_eq,
    hiter, hpoint, hcriteria]

end Objective.SameFirstOrder

lemma Algorithm.method_eq (hobj : obj.AgreeFor algorithm obj') (ho : o.AgreeFor algorithm o') :
    algorithm.method obj o = algorithm.method obj' o' := by
  have hpart := ho.part
  cases algorithm with
  | gradientDescent => rw [Algorithm.method, hpart, Algorithm.method]
  | gradientDescentLineSearch => rw [Algorithm.method, hpart.armijo_eq, Algorithm.method]
  | lbfgs => rw [Algorithm.method, hpart.1, hpart.2.armijo_eq, Algorithm.method]
  | newton | diagonalPreconditioner =>
    obtain ⟨hdamping, hmode, hsearch⟩ := hpart
    rw [hobj.eq_of_secondOrder (by simp), Algorithm.method, hdamping,
      Options.stepRule_eq hmode hsearch, Algorithm.method]

/-- Runs that agree on the options and the parts of the objective that the algorithm reads have the
same answer. -/
theorem run_eq_of_agreeFor (algorithm : Algorithm) (obj obj' : Objective F) (o o' : Options F)
    (hobj : obj.AgreeFor algorithm obj') (ho : o.AgreeFor algorithm o') :
    run algorithm obj o = run algorithm obj' o' := by
  have hvalid : o.validate algorithm obj.dim obj.hasHessian =
      o'.validate algorithm obj'.dim obj'.hasHessian := by
    rw [Options.validate, hobj.dim, ho.fault?_eq obj'.dim fun hneeds => (hobj.secondOrder hneeds).1,
      Options.validate]
  have hiterate : iterate algorithm obj o = iterate algorithm obj' o' := by
    rw [iterate_eq, iterate_eq, Algorithm.method_eq hobj ho, ho.hasPairRoom_eq,
      hobj.methodRun_eq _ ho.maxIter ho.initialPoint ho.termination]
  rw [run, hvalid, hiterate, run]

/-- Usual options for full steps from a point on the saddle. -/
def ridgeOptions : Options Float :=
  { Options.standard Tolerances.double with
    maxIter := 3
    initialPoint := AnalyticProblem.saddle.initialPoint
    lineSearch := .off }

/-- The same with no number in what full steps do not need. -/
def strayOptions : Options Float :=
  { ridgeOptions with alpha := 0 / 0, c1 := 0 / 0, memory := 0, maxLineSearchTrials := 0 }

/-- Newton's method without a line search does not see that the step, the slope, the memory and the
number of trials are unusable, and the search along the gradient does not see that second derivatives
are missing. -/
theorem ridge_runs_agree :
    run .newton AnalyticProblem.saddle.objective strayOptions =
        run .newton AnalyticProblem.saddle.objective ridgeOptions ∧
      (run .newton AnalyticProblem.saddle.objective strayOptions).toOption.isSome ∧
      run .gradientDescentLineSearch
          { AnalyticProblem.saddle.objective with hessian := fun _ => none, hasHessian := false }
          { ridgeOptions with hessianDamping := 0 / 0 } =
        run .gradientDescentLineSearch AnalyticProblem.saddle.objective ridgeOptions := by
  refine ⟨?_, by decide +kernel, ?_⟩
  · apply run_eq_of_agreeFor
    · exact ⟨⟨fun _ => rfl, fun _ => rfl⟩, rfl, fun _ => ⟨rfl, fun _ => rfl⟩⟩
    · exact ⟨rfl, rfl, rfl, rfl, rfl, nofun⟩
  · apply run_eq_of_agreeFor
    · exact ⟨⟨fun _ => rfl, fun _ => rfl⟩, rfl, by simp⟩
    · exact ⟨rfl, rfl, rfl, ⟨rfl, rfl⟩⟩

end Downhill
