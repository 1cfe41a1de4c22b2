import Mathlib.Tactic.Common
import Downhill.Proofs.RunHistory
import Downhill.Proofs.SpecialValues

/-!
# Hessians that are not finite

Elimination looks at every entry before it starts, and a shift along the diagonal does not make an
entry finite. The Cholesky factorization has no such check and reads one triangle only. But what is
left of an entry after a column has been taken out is finite only if the entry and both factor entries
are, and all that is left ends up on the diagonal, where it is checked. So no attempt at a symmetric
system gets through a matrix with an entry that is not finite.
-/

namespace Downhill

variable {F : Type} [Arithmetic F]

/-- Numbers that are equal or both no numbers. -/
def Arithmetic.Same (x y : F) : Prop :=
  (x == y) = true ∨ Arithmetic.isNaN x = true ∧ Arithmetic.isNaN y = true

lemma Arithmetic.same_self (x : F) : Arithmetic.Same x x := by
  cases h : x == x with
  | true => exact .inl h
  | false => exact .inr (by simp [isNaN, h])

lemma Arithmetic.Same.isFinite_eq [FiniteResults F] {x y : F} (h : Arithmetic.Same x y) :
    Arithmetic.isFinite x = Arithmetic.isFinite y := by
  have hnot : ∀ z : F, isNaN z = true → Arithmetic.isFinite z = false := fun z hz => by
    rw [Bool.eq_false_iff]
    intro hfinite
    rw [FiniteResults.isNaN_of_isFinite hfinite] at hz
    cases hz
  obtain h | ⟨hx, hy⟩ := h
  · exact FiniteResults.isFinite_eq_of_beq h
  · rw [hnot x hx, hnot y hy]

namespace Rows

/-- A square matrix with the same entries on both sides of the diagonal. -/
structure IsSymmetric (a : Rows F) : Prop where
  square : ∀ row ∈ a, row.length = a.length
  same : ∀ i j, i < a.length → j < a.length → Arithmetic.Same (a.entry i j) (a.entry j i)

lemma entry_eq_getElem {a : Rows F} {i j : Nat} (hi : i < a.length) (hj : j < a[i].length) :
    a.entry i j = a[i][j] := by
  rw [entry, List.getD_eq_getElem _ _ hi, List.getD_eq_getElem _ _ hj]

lemma isFinite_iff {a : Rows F} :
    a.isFinite = true ↔ ∀ row ∈ a, ∀ x ∈ row, Arithmetic.isFinite x = true := by
  simp only [isFinite, List.all_eq_true]

lemma isFinite_iff_entry {a : Rows F} (square : ∀ row ∈ a, row.length = a.length) :
    a.isFinite = true ↔
      ∀ i j, i < a.length → j < a.length → Arithmetic.isFinite (a.entry i j) = true := by
  rw [isFinite_iff]
  constructor
  · intro h i j hi hj
    have hrow := square a[i] (List.getElem_mem hi)
    rw [entry_eq_getElem hi (by omega)]
    exact h _ (List.getElem_mem hi) _ (List.getElem_mem _)
  · intro h row hrow x hx
    obtain ⟨i, hi, rfl⟩ := List.getElem_of_mem hrow
    obtain ⟨j, hj, rfl⟩ := List.getElem_of_mem hx
    rw [← entry_eq_getElem hi hj]
    exact h i j hi (by rw [← square _ hrow]; exact hj)

lemma square_addDiagonal {a : Rows F} (square : ∀ row ∈ a, row.length = a.length) (shift : F) :
    ∀ row ∈ a.addDiagonal shift, row.length = (a.addDiagonal shift).length := by
  intro row hrow
  rw [addDiagonal, List.mem_mapIdx] at hrow
  obtain ⟨i, hi, rfl⟩ := hrow
  rw [List.length_modify, length_addDiagonal]
  exact square _ (List.getElem_mem hi)

lemma entry_addDiagonal {a : Rows F} (square : ∀ row ∈ a, row.length = a.length) (shift : F)
    {i j : Nat} (hi : i < a.length) (hj : j < a.length) :
    (a.addDiagonal shift).entry i j = if i = j then a.entry i j + shift else a.entry i j := by
  have hrow := square a[i] (List.getElem_mem hi)
  have hj' : j < a[i].length := by omega
  simp only [entry, addDiagonal, List.getD_eq_getElem?_getD, List.getElem?_mapIdx,
    List.getElem?_eq_getElem hi, Option.map_some, Option.getD_some, List.getElem?_modify,
    List.getElem?_eq_getElem hj']
  split <;> rfl

variable {a : Rows F}

lemma IsSymmetric.addDiagonal (h : a.IsSymmetric) (shift : F) :
    (a.addDiagonal shift).IsSymmetric := by
  refine ⟨square_addDiagonal h.square shift, fun i j hi hj => ?_⟩
  rw [length_addDiagonal] at hi hj
  by_cases hij : i = j
  · subst hij
    exact Arithmetic.same_self _
  · rw [entry_addDiagonal h.square shift hi hj, entry_addDiagonal h.square shift hj hi, if_neg hij,
      if_neg (Ne.symm hij)]
    exact h.same i j hi hj

/-- Adding to an entry that is not finite does not make it finite. -/
lemma IsSymmetric.isFinite_of_addDiagonal [FiniteResults F] (h : a.IsSymmetric) {shift : F}
    (hfinite : (a.addDiagonal shift).isFinite = true) : a.isFinite = true := by
  rw [isFinite_iff_entry (square_addDiagonal h.square shift)] at hfinite
  rw [isFinite_iff_entry h.square]
  intro i j hi hj
  have hentry := hfinite i j (by rwa [length_addDiagonal]) (by rwa [length_addDiagonal])
  rw [entry_addDiagonal h.square shift hi hj] at hentry
  split at hentry
  · exact (FiniteResults.add hentry).1
  · exact hentry

end Rows

namespace Cholesky

/-- What is left of a row is finite only if the row is and its factor entry is. -/
lemma isFinite_of_complementRow [FiniteResults F] {heads row : List F} {diagonal : F}
    (hrow : 2 ≤ row.length) (hheads : row.length ≤ heads.length + 1)
    (h : ∀ x ∈ complementRow heads (row.headD 0 / diagonal) row, Arithmetic.isFinite x = true) :
    ∀ x ∈ row, Arithmetic.isFinite x = true := by
  obtain ⟨first, tail, rfl⟩ : ∃ first tail, row = first :: tail :=
    List.exists_cons_of_length_pos (by omega)
  rw [List.length_cons] at hrow hheads
  have htail : ∀ j (hj : j < tail.length),
      Arithmetic.isFinite (tail[j] - first / diagonal * heads[j]) = true := by
    intro j hj
    have hleft : tail[j] - first / diagonal * heads[j] ∈
        complementRow heads (first / diagonal) (first :: tail) := by
      rw [List.mem_iff_getElem]
      exact ⟨j, by simp only [complementRow, List.tail_cons, List.length_zipWith]; omega,
        List.getElem_zipWith ..⟩
    exact h _ hleft
  have hfactor := (FiniteResults.mul (FiniteResults.sub (htail 0 (by omega))).2).1
  refine List.forall_mem_cons.mpr ⟨(FiniteResults.div hfactor).1, fun x hx => ?_⟩
  obtain ⟨j, hj, rfl⟩ := List.getElem_of_mem hx
  exact (FiniteResults.sub (htail j hj)).1

/-- Row `k` of a lower triangle has `k + 1` entries. -/
def IsTriangle (rows : Rows F) : Prop :=
  ∀ k (hk : k < rows.length), rows[k].length = k + 1

lemma isTriangle_complement {top : List F} {rows : Rows F} (h : IsTriangle (top :: rows))
    {heads : List F} (hheads : heads.length = rows.length) :
    IsTriangle (List.zipWith (complementRow heads) heads rows) := by
  intro k hk
  rw [List.length_zipWith] at hk
  have hrow : rows[k].length = k + 1 + 1 := h (k + 1) (by rw [List.length_cons]; omega)
  rw [List.getElem_zipWith, complementRow, List.length_zipWith, List.length_tail]
  omega

/-- A triangle with a factor is finite. The induction goes from the last row to the first: an entry
that is not finite would be handed down to what is left of its row. -/
lemma isFinite_of_columns [FiniteResults F] {order : Nat} {rows : Rows F} {factor : List (Column F)}
    (hlength : rows.length = order) (htriangle : IsTriangle rows)
    (h : columns order rows = some factor) :
    ∀ row ∈ rows, ∀ x ∈ row, Arithmetic.isFinite x = true := by
  induction order generalizing rows factor with
  | zero =>
    obtain rfl := List.eq_nil_of_length_eq_zero hlength
    exact fun row hrow => absurd hrow List.not_mem_nil
  | succ order ih =>
    cases rows with
    | nil => cases hlength
    | cons top rows =>
      obtain ⟨pivot, rfl⟩ : ∃ pivot, top = [pivot] :=
        List.length_eq_one_iff.mp (htriangle 0 (Nat.succ_pos _))
      simp only [columns] at h
      split_ifs at h with hpivot
      obtain ⟨later, hlater, -⟩ := Option.map_eq_some_iff.mp h
      obtain ⟨heads, hheads⟩ :
          ∃ heads, heads = rows.map fun row => row.headD 0 / Arithmetic.sqrt pivot := ⟨_, rfl⟩
      have hlengthheads : heads.length = rows.length := by rw [hheads, List.length_map]
      rw [List.length_cons, Nat.add_right_cancel_iff] at hlength
      rw [List.headD_cons, ← hheads] at hlater
      have hleft := ih (by rw [List.length_zipWith]; omega)
        (isTriangle_complement htriangle hlengthheads) hlater
      refine List.forall_mem_cons.mpr ⟨fun x hx => ?_, fun row hrow => ?_⟩
      · rw [List.mem_singleton.mp hx]
        exact hpivot.2
      · obtain ⟨k, hk, rfl⟩ := List.getElem_of_mem hrow
        have hrowlength : rows[k].length = k + 1 + 1 := htriangle (k + 1) (Nat.succ_lt_succ hk)
        have hmem : complementRow heads (rows[k].headD 0 / Arithmetic.sqrt pivot) rows[k] ∈
            List.zipWith (complementRow heads) heads rows := by
          rw [List.mem_iff_getElem]
          exact ⟨k, by rw [List.length_zipWith]; omega, by simp [hheads]⟩
        exact isFinite_of_complementRow (by omega) (by omega) (hleft _ hmem)

omit [Arithmetic F] in
lemma isTriangle_lowerTriangle {a : Rows F} (square : ∀ row ∈ a, row.length = a.length) :
    IsTriangle (lowerTriangle a) := by
  intro k hk
  have hk' : k < a.length := by rwa [lowerTriangle, List.length_mapIdx] at hk
  simp only [lowerTriangle, List.getElem_mapIdx, List.length_take, square _ (List.getElem_mem hk')]
  omega

/-- The triangle that is read has, by symmetry, all that is in the matrix. -/
lemma solve_eq_none [FiniteResults F] {a : Rows F} (ha : a.IsSymmetric)
    (hfinite : a.isFinite = false) (b : List F) : solve a b = none := by
  rw [solve, Option.map_eq_none_iff, factor, Option.eq_none_iff_forall_not_mem]
  intro columns hcolumns
  have htriangle := isFinite_of_columns (List.length_mapIdx ..) (isTriangle_lowerTriangle ha.square)
    hcolumns
  have hlower : ∀ i j, i < a.length → j ≤ i → Arithmetic.isFinite (a.entry i j) = true := by
    intro i j hi hj
    have hrow := ha.square _ (List.getElem_mem hi)
    rw [Rows.entry_eq_getElem hi (by omega)]
    refine htriangle (a[i].take (i + 1)) (List.mem_mapIdx.mpr ⟨i, hi, rfl⟩) _ ?_
    exact List.mem_take_iff_getElem.mpr ⟨j, by omega, rfl⟩
  have hall : a.isFinite = true := by
    rw [Rows.isFinite_iff_entry ha.square]
    intro i j hi hj
    obtain hji | hij := Nat.le_total j i
    · exact hlower i j hi hji
    · rw [(ha.same i j hi hj).isFinite_eq]
      exact hlower j i hj hij
  rw [hall] at hfinite
  cases hfinite

end Cholesky

lemma LU.solve_eq_none_of_not_isFinite {a : Rows F} (h : a.isFinite = false) (b : List F) :
    LU.solve a b = none := by
  rw [LU.solve, LU.factor, h]
  rfl

section Solve

variable [FiniteResults F] {a : Rows F}

lemma Rows.IsSymmetric.isFinite_addDiagonal (ha : a.IsSymmetric) (hfinite : a.isFinite = false)
    (shift : F) : (a.addDiagonal shift).isFinite = false := by
  rw [Bool.eq_false_iff] at hfinite ⊢
  exact fun h => hfinite (ha.isFinite_of_addDiagonal h)

lemma solveShifted_eq_none (ha : a.IsSymmetric) (hfinite : a.isFinite = false) (b : List F)
    (attempts : Nat) (shift : F) : solveShifted a b attempts shift = none := by
  induction attempts generalizing shift with
  | zero => rfl
  | succ attempts ih =>
    rw [solveShifted, LU.solve_eq_none_of_not_isFinite (ha.isFinite_addDiagonal hfinite shift)]
    exact ih _

lemma solveSymmetric_eq_none (ha : a.IsSymmetric) (hfinite : a.isFinite = false) (b : List F) :
    solveSymmetric a b = none := by
  rw [solveSymmetric, Cholesky.solve_eq_none ha hfinite, LU.solve_eq_none_of_not_isFinite hfinite]
  exact solveShifted_eq_none ha hfinite b _ _

/-- The damping does not make the Hessian finite. -/
lemma newtonDirection_of_not_isFinite (ha : a.IsSymmetric) (hfinite : a.isFinite = false)
    (damping : F) (gradient : List F) :
    newtonDirection a damping gradient = (neg gradient, .steepestDescentFallback) := by
  rw [newtonDirection, solveSymmetric_eq_none (ha.addDiagonal damping)
    (ha.isFinite_addDiagonal hfinite damping)]

end Solve

/-- No attempt at a system with a symmetric matrix gets through if an entry is not finite, and a
Newton step that meets such a Hessian goes along the negative gradient. -/
theorem non_finite_hessian_is_refused [FiniteResults F] :
    (∀ a : Rows F, a.IsSymmetric → a.isFinite = false → ∀ b : List F,
      Cholesky.solve a b = none ∧ LU.solve a b = none ∧
      (∀ shift, LU.solve (a.addDiagonal shift) b = none) ∧
      solveShifted a b regularizationAttempts (firstShift a) = none ∧
      solveSymmetric a b = none) ∧
    ∀ (obj : Objective F) (options : Options F) (trace : Trace F),
      run .newton obj options = .ok trace → ∀ i (hi : i < trace.iterations.length), ∃ c,
        trace.iterations[i].curvature = some c ∧
        obj.hessian trace.iterations[i].wOld = some c.hessian ∧
        (c.hessian.IsSymmetric → c.hessian.isFinite = false →
          c.source = .steepestDescentFallback ∧
          trace.iterations[i].direction = neg trace.iterations[i].gradient) := by
  constructor
  · intro a ha hfinite b
    exact ⟨Cholesky.solve_eq_none ha hfinite b, LU.solve_eq_none_of_not_isFinite hfinite b,
      fun shift => LU.solve_eq_none_of_not_isFinite (ha.isFinite_addDiagonal hfinite shift) b,
      solveShifted_eq_none ha hfinite b _ _, solveSymmetric_eq_none ha hfinite b⟩
  · intro obj options trace hrun
    refine run_forall_records hrun (fun _ => True)
      (fun r => ∃ c, r.curvature = some c ∧ obj.hessian r.wOld = some c.hessian ∧
        (c.hessian.IsSymmetric → c.hessian.isFinite = false →
          c.source = .steepestDescentFallback ∧ r.direction = neg r.gradient)) trivial ?_
    intro s record t _ hsteps
    obtain ⟨hessian, hhessian, hdirection, hcurvature⟩ := Method.newton_steps hsteps
    refine ⟨⟨_, hcurvature, hhessian, fun hsymmetric hfinite => ?_⟩, trivial⟩
    have hrefused := newtonDirection_of_not_isFinite hsymmetric hfinite options.hessianDamping
      record.gradient
    exact ⟨congrArg Prod.snd hrefused, hdirection.trans (congrArg Prod.fst hrefused)⟩

/-- The form `x² + y²` with second derivatives that are infinite off the diagonal. -/
def brokenBowl : Objective Float :=
  .ofFunctions 2 (fun w => dot w w) (fun w => w.map (2 * ·))
    (some fun _ => [[2, Arithmetic.infinity], [Arithmetic.infinity, 2]])

/-- The first Newton step of the broken bowl goes along the negative gradient. -/
theorem broken_bowl_is_refused : ∃ trace,
    run .newton brokenBowl { Options.standard .double with initialPoint := [1, 1] } = .ok trace ∧
      ∃ hi : 0 < trace.iterations.length, ∃ c, trace.iterations[0].curvature = some c ∧
        c.source = .steepestDescentFallback ∧
        trace.iterations[0].direction = neg trace.iterations[0].gradient := by
  obtain ⟨trace, hrun, hlength⟩ : ∃ trace,
      run .newton brokenBowl { Options.standard .double with initialPoint := [1, 1] } = .ok trace ∧
        decide (0 < trace.iterations.length) = true :=
    exists_trace_of_toOption _ (by decide +kernel)
  have hi : 0 < trace.iterations.length := of_decide_eq_true hlength
  obtain ⟨c, hcurvature, hhessian, hrefused⟩ :=
    non_finite_hessian_is_refused.2 _ _ trace hrun 0 hi
  have hmatrix : c.hessian = [[2, Arithmetic.infinity], [Arithmetic.infinity, 2]] :=
    (Option.some_inj.mp hhessian).symm
  have hsymmetric : c.hessian.IsSymmetric := by
    rw [hmatrix]
    refine ⟨by simp, fun i j hi hj => ?_⟩
    have hcases : ∀ k, k < 2 → k = 0 ∨ k = 1 := by omega
    obtain rfl | rfl := hcases i hi <;> obtain rfl | rfl := hcases j hj <;>
      exact Arithmetic.same_self _
  have hfinite : c.hessian.isFinite = false := by
    rw [hmatrix]
    decide +kernel
  exact ⟨trace, hrun, hi, c, hcurvature, hrefused hsymmetric hfinite⟩

end Downhill
