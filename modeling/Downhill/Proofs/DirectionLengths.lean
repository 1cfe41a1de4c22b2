import Downhill.Proofs.Elimination
import Downhill.Proofs.RecordChain

/-!
# Directions of the right length

A solution of a linear system has as many entries as the matrix has rows, whichever factorization it
comes from and whatever the entries are. So on an objective whose gradients and Hessians have its
dimension the methods that read second derivatives never leave vectors of that dimension, and the
Hessian is only asked for where its shape is known.
-/

namespace Downhill

variable {F : Type} [Arithmetic F]

lemma length_neg (v : List F) : (neg v).length = v.length :=
  List.length_map _

namespace Cholesky

/-- Columns below whose diagonal entries stand as many entries as there are columns after them. -/
def Tapers : List (Column F) → Prop
  | [] => True
  | c :: cs => c.below.length = cs.length ∧ Tapers cs

lemma tapers_columns {n : Nat} {rows : Rows F} {cs : List (Column F)}
    (h : columns n rows = some cs) (hn : rows.length = n) : cs.length = n ∧ Tapers cs := by
  induction n generalizing rows cs with
  | zero =>
    rw [columns, Option.some_inj] at h
    subst h
    exact ⟨rfl, trivial⟩
  | succ n ih =>
    obtain ⟨top, rows, rfl⟩ := List.exists_cons_of_length_eq_add_one hn
    rw [columns] at h
    dsimp only at h
    split_ifs at h
    obtain ⟨rest, hrest, rfl⟩ := Option.map_eq_some_iff.mp h
    have hlength : rows.length = n := Nat.succ_injective hn
    obtain ⟨hcount, htapers⟩ := ih hrest (by simp [hlength])
    refine ⟨by rw [List.length_cons, hcount], ?_, htapers⟩
    rw [List.length_map, hcount, hlength]

lemma length_forward {cs : List (Column F)} (hcs : Tapers cs) (b : List F)
    (hb : b.length = cs.length) : (forward cs b).length = cs.length := by
  induction cs generalizing b with
  | nil => rfl
  | cons c cs ih =>
    obtain ⟨x, b, rfl⟩ := List.exists_cons_of_length_eq_add_one hb
    have hlength : b.length = cs.length := Nat.succ_injective hb
    rw [forward, List.length_cons, List.length_cons, ih hcs.2]
    rw [List.length_zipWith, hlength, hcs.1, Nat.min_self]

lemma length_backward (rows : List (Column F × F)) : (backward rows).length = rows.length := by
  induction rows with
  | nil => rfl
  | cons row rows ih => rw [backward, List.length_cons, List.length_cons, ih]

lemma length_solve {a : Rows F} {b x : List F} (h : solve a b = some x)
    (hb : b.length = a.length) : x.length = a.length := by
  obtain ⟨cs, hcs, rfl⟩ := Option.map_eq_some_iff.mp h
  obtain ⟨hcount, htapers⟩ := tapers_columns hcs List.length_mapIdx
  rw [length_backward, List.length_zip, length_forward htapers b (hb.trans hcount.symm), hcount,
    Nat.min_self]

end Cholesky

namespace LU

lemma length_choosePivot (top : Row F) (others : List (Row F)) :
    (choosePivot top others).2.2.length = others.length := by
  unfold choosePivot exchange
  dsimp only
  split
  · rfl
  · split
    · exact List.length_set
    · rfl

lemma length_eliminate {t : F} {n : Nat} {rows done : List (Row F)}
    (h : eliminate t n rows = some done) (hn : rows.length = n) : done.length = n := by
  induction n generalizing rows done with
  | zero =>
    rw [eliminate, Option.some_inj] at h
    subst h
    rfl
  | succ n ih =>
    obtain ⟨top, others, rfl⟩ := List.exists_cons_of_length_eq_add_one hn
    have hothers := (length_choosePivot top others).trans (Nat.succ_injective hn)
    rw [eliminate_cons] at h
    dsimp only at h
    split_ifs at h
    obtain ⟨rest, hrest, rfl⟩ := Option.map_eq_some_iff.mp h
    rw [List.length_cons, ih hrest (by rw [List.length_map, hothers])]

lemma length_forward (b : List F) (rows : List (Row F)) (solved : List F) :
    (forward b rows solved).length = solved.length + rows.length := by
  induction rows generalizing solved with
  | nil => rfl
  | cons r rows ih =>
    rw [forward, ih, List.length_append, List.length_cons, List.length_cons, List.length_nil]
    omega

lemma length_backward (rows : List (List F × F)) : (backward rows).length = rows.length := by
  induction rows with
  | nil => rfl
  | cons row rows ih => rw [backward, List.length_cons, List.length_cons, ih]

lemma length_backSolve (f : Factors F) (b : List F) :
    (backSolve f b).length = f.rows.length := by
  rw [backSolve, length_backward, List.length_zip, List.length_map, length_forward, List.length_nil,
    Nat.zero_add, Nat.min_self]

lemma length_solve {a : Rows F} {b x : List F} (h : solve a b = some x) :
    x.length = a.length := by
  obtain ⟨f, hf, rfl⟩ := Option.map_eq_some_iff.mp h
  rw [length_backSolve]
  unfold factor at hf
  split_ifs at hf
  obtain ⟨rows, hrows, rfl⟩ := Option.map_eq_some_iff.mp hf
  exact length_eliminate hrows List.length_mapIdx

end LU

lemma length_solveShifted {a : Rows F} {b : List F} {attempts : Nat} {shift : F}
    {x : SymmetricSolution F} (h : solveShifted a b attempts shift = some x) :
    x.solution.length = a.length := by
  induction attempts generalizing shift with
  | zero => cases h
  | succ attempts ih =>
    rw [solveShifted] at h
    cases hsolve : LU.solve (a.addDiagonal shift) b with
    | some y =>
      rw [hsolve] at h
      cases h
      exact (LU.length_solve hsolve).trans (a.length_addDiagonal shift)
    | none =>
      rw [hsolve] at h
      exact ih h

lemma length_solveSymmetric {a : Rows F} {b : List F} {x : SymmetricSolution F}
    (h : solveSymmetric a b = some x) (hb : b.length = a.length) :
    x.solution.length = a.length := by
  unfold solveSymmetric at h
  cases hcholesky : Cholesky.solve a b with
  | some y =>
    rw [hcholesky] at h
    cases h
    exact Cholesky.length_solve hcholesky hb
  | none =>
    rw [hcholesky] at h
    cases hlu : LU.solve a b with
    | some y =>
      rw [hlu] at h
      cases h
      exact LU.length_solve hlu
    | none =>
      rw [hlu] at h
      exact length_solveShifted h

lemma length_newtonDirection {hessian : Rows F} {gradient : List F} (damping : F)
    (h : gradient.length = hessian.length) :
    (newtonDirection hessian damping gradient).1.length = gradient.length := by
  have hdamped := hessian.length_addDiagonal damping
  unfold newtonDirection
  cases hsolve : solveSymmetric (hessian.addDiagonal damping) (neg gradient) with
  | some solved =>
    change solved.solution.length = gradient.length
    rw [length_solveSymmetric hsolve (by rw [length_neg, hdamped, h]), hdamped, h]
  | none => exact length_neg gradient

lemma length_diagonalHeading_direction {hessian : Rows F} {gradient : List F} (damping : F)
    (h : gradient.length = hessian.length) :
    (Method.diagonalHeading damping hessian gradient).direction.length = gradient.length := by
  simp [Method.diagonalHeading, inverseDiagonal, Rows.diagonal, h]

/-- An objective whose gradients have its dimension, and whose Hessians are square matrices of it where
they are known. -/
structure Objective.IsShaped (obj : Objective F) : Prop where
  gradient : ∀ w, w.length = obj.dim → (obj.gradient w).length = obj.dim
  hessian : ∀ w rows, w.length = obj.dim → obj.hessian w = some rows →
    rows.length = obj.dim ∧ ∀ row ∈ rows, row.length = obj.dim

namespace Method

variable {obj : Objective F} {damping : F} {rule : StepRule F} {s t : RunState F Unit}
  {record : IterationRecord F}

/-- A method stays in the dimension of the objective if the directions that it makes of Hessians and
gradients are as long as the gradients. -/
lemma Steps.isSized_of_heading {method : Method F Unit} (h : method.Steps obj s record t)
    (hobj : obj.IsShaped) (hs : IsSized obj obj.dim s) (heading : Rows F → List F → List F)
    (hlength : ∀ rows gradient, gradient.length = rows.length →
      (heading rows gradient).length = gradient.length) {rows : Rows F}
    (hrows : obj.hessian record.wOld = some rows)
    (hdirection : record.direction = heading rows record.gradient) : IsSized obj obj.dim t := by
  have hgradient := h.gradient_length hobj.gradient hs
  have hcount := (hobj.hessian _ _ (h.points.1 ▸ hs.point) hrows).1
  apply h.isSized hs
  rw [hdirection, hlength rows _ (hgradient.trans hcount.symm), hgradient]

lemma newton_steps_isSized (hobj : obj.IsShaped)
    (h : (Method.newton obj damping rule).Steps obj s record t) (hs : IsSized obj obj.dim s) :
    IsSized obj obj.dim t := by
  obtain ⟨rows, hrows, hdirection, -⟩ := newton_steps h
  exact h.isSized_of_heading hobj hs _ (fun _ _ => length_newtonDirection damping) hrows hdirection

lemma diagonal_steps_isSized (hobj : obj.IsShaped)
    (h : (Method.diagonal obj damping rule).Steps obj s record t) (hs : IsSized obj obj.dim s) :
    IsSized obj obj.dim t := by
  obtain ⟨rows, hrows, hdirection, -⟩ := diagonal_steps h
  exact h.isSized_of_heading hobj hs _ (fun _ _ => length_diagonalHeading_direction damping) hrows
    hdirection

end Method

end Downhill
