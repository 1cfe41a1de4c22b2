import Downhill.Proofs.RealMatrices
import Downhill.Matrix.Cholesky

/-!
# Positive definite systems

Taking the first column out of a symmetric matrix leaves its complement, and the matrix is positive
definite exactly when its first entry is positive and the complement is positive definite. So the
Cholesky factorization goes through for the positive definite matrices and for no others, and its
two triangular systems solve the system of the matrix.
-/

namespace Downhill
open Matrix

namespace Cholesky

variable {n : ℕ}

/-- The lower triangle of a matrix, row by row. -/
def triangle (a : Matrix (Fin n) (Fin n) ℝ) : Rows ℝ :=
  List.ofFn fun i : Fin n => List.ofFn fun j : Fin (i + 1) => a i (j.castLE i.isLt)

lemma lowerTriangle_ofMatrix (a : Matrix (Fin n) (Fin n) ℝ) :
    lowerTriangle (Rows.ofMatrix a) = triangle a := by
  rw [lowerTriangle, Rows.mapIdx_ofMatrix]
  unfold triangle
  congr 1
  funext i
  apply List.ext_getElem
  · simp only [List.length_take, List.length_ofFn]
    omega
  · intro j h₁ h₂
    simp only [List.getElem_take, List.getElem_ofFn, Fin.castLE_mk]

variable {a : Matrix (Fin (n + 1)) (Fin (n + 1)) ℝ}

/-- The entries of the factor below its first diagonal entry. -/
noncomputable def heads (a : Matrix (Fin (n + 1)) (Fin (n + 1)) ℝ) : Fin n → ℝ :=
  fun i => a i.succ 0 / √(a 0 0)

/-- What is left of a matrix once the first column of its factor is taken out. -/
noncomputable def complement (a : Matrix (Fin (n + 1)) (Fin (n + 1)) ℝ) :
    Matrix (Fin n) (Fin n) ℝ :=
  a.submatrix Fin.succ Fin.succ - vecMulVec (heads a) (heads a)

lemma isSymm_complement (ha : a.IsSymm) : (complement a).IsSymm := by
  refine (ha.submatrix Fin.succ).sub ?_
  rw [Matrix.IsSymm, transpose_vecMulVec]

lemma column_eq (hpivot : 0 < a 0 0) (i : Fin n) : a i.succ 0 = √(a 0 0) * heads a i :=
  (mul_div_cancel₀ _ (Real.sqrt_pos.mpr hpivot).ne').symm

/-- The product with a matrix whose first column is taken out. -/
lemma mulVec_cons (ha : a.IsSymm) (hpivot : 0 < a 0 0) (x : ℝ) (u : Fin n → ℝ) :
    let y := √(a 0 0) * x + heads a ⬝ᵥ u
    a *ᵥ (Fin.cons x u : Fin (n + 1) → ℝ) =
      Fin.cons (√(a 0 0) * y) (y • heads a + complement a *ᵥ u) := by
  intro y
  have hroot : √(a 0 0) * √(a 0 0) = a 0 0 := Real.mul_self_sqrt hpivot.le
  funext i
  cases i using Fin.cases with
  | zero =>
    have hrow : (fun j : Fin n => a 0 j.succ) = √(a 0 0) • heads a := by
      funext j
      rw [← ha.apply, column_eq hpivot]
      rfl
    have hsum : (a *ᵥ (Fin.cons x u : Fin (n + 1) → ℝ)) 0 =
        a 0 0 * x + (fun j : Fin n => a 0 j.succ) ⬝ᵥ u := by
      simp only [mulVec, dotProduct, Fin.sum_univ_succ, Fin.cons_zero, Fin.cons_succ]
    rw [hsum, hrow, smul_dotProduct, Fin.cons_zero, smul_eq_mul, mul_add, ← mul_assoc, hroot]
  | succ i =>
    have hsum : (a *ᵥ (Fin.cons x u : Fin (n + 1) → ℝ)) i.succ =
        a i.succ 0 * x + (a.submatrix Fin.succ Fin.succ *ᵥ u) i := by
      simp only [mulVec, dotProduct, Fin.sum_univ_succ, Fin.cons_zero, Fin.cons_succ,
        submatrix_apply]
    rw [hsum, column_eq hpivot, Fin.cons_succ, complement, sub_mulVec, vecMulVec_mulVec]
    simp only [Pi.add_apply, Pi.sub_apply, Pi.smul_apply, smul_eq_mul, MulOpposite.smul_eq_mul_unop,
      MulOpposite.unop_op]
    ring

/-- The form of a matrix is a square and the form of the complement. -/
lemma form_cons (ha : a.IsSymm) (hpivot : 0 < a 0 0) (x : ℝ) (u : Fin n → ℝ) :
    (Fin.cons x u : Fin (n + 1) → ℝ) ⬝ᵥ a *ᵥ (Fin.cons x u : Fin (n + 1) → ℝ) =
      (√(a 0 0) * x + heads a ⬝ᵥ u) ^ 2 + u ⬝ᵥ complement a *ᵥ u := by
  have hcons : ∀ (y z : ℝ) (v w : Fin n → ℝ), (Fin.cons y v : Fin (n + 1) → ℝ) ⬝ᵥ
      (Fin.cons z w : Fin (n + 1) → ℝ) = y * z + v ⬝ᵥ w :=
    fun y z v w => cons_dotProduct_cons y v z w
  rw [mulVec_cons ha hpivot, hcons, dotProduct_add, dotProduct_smul, dotProduct_comm u (heads a),
    smul_eq_mul]
  ring

lemma posDef_iff_complement (ha : a.IsSymm) :
    a.PosDef ↔ 0 < a 0 0 ∧ (complement a).PosDef := by
  have hcomplement := posDef_iff_form_pos (isSymm_complement ha)
  constructor
  · intro h
    have hpivot : 0 < a 0 0 := h.diag_pos
    have hroot := (Real.sqrt_pos.mpr hpivot).ne'
    refine ⟨hpivot, hcomplement.mpr fun u hu => ?_⟩
    -- The first coordinate is chosen so that the square vanishes.
    have hne : (Fin.cons (-(heads a ⬝ᵥ u) / √(a 0 0)) u : Fin (n + 1) → ℝ) ≠ 0 := by
      intro hzero
      apply hu
      funext i
      exact congrFun hzero i.succ
    have hform := (posDef_iff_form_pos ha).mp h _ hne
    rw [form_cons ha hpivot, mul_div_cancel₀ _ hroot, neg_add_cancel] at hform
    simpa using hform
  · rintro ⟨hpivot, h⟩
    refine (posDef_iff_form_pos ha).mpr fun v hv => ?_
    obtain ⟨x, u, rfl⟩ : ∃ x u, v = Fin.cons x u := ⟨v 0, Fin.tail v, (Fin.cons_self_tail v).symm⟩
    rw [form_cons ha hpivot]
    by_cases hu : u = 0
    · have hx : x ≠ 0 := by
        rintro rfl
        apply hv
        funext i
        cases i using Fin.cases with
        | zero => rfl
        | succ i => exact congrFun hu i
      have hroot := Real.sqrt_pos.mpr hpivot
      simp only [hu, dotProduct_zero, zero_dotProduct, add_zero]
      positivity
    · exact add_pos_of_nonneg_of_pos (sq_nonneg _) (hcomplement.mp h u hu)

lemma columns_triangle (a : Matrix (Fin (n + 1)) (Fin (n + 1)) ℝ) :
    columns (n + 1) (triangle a) =
      if 0 < a 0 0 then
        (columns n (triangle (complement a))).map (⟨√(a 0 0), List.ofFn (heads a)⟩ :: ·)
      else none := by
  have htop : (List.ofFn fun j : Fin ((0 : Fin (n + 1)) + 1) =>
      a 0 (j.castLE (0 : Fin (n + 1)).isLt)).headD 0 = a 0 0 := rfl
  have hheads : (List.ofFn fun i : Fin n => List.ofFn fun j : Fin (i.succ + 1) =>
      a i.succ (j.castLE i.succ.isLt)).map (fun row => row.headD 0 / √(a 0 0)) =
        List.ofFn (heads a) := by
    rw [List.map_ofFn]
    congr 1
    funext i
    rw [Function.comp_apply, List.ofFn_succ]
    rfl
  have hrows : (List.zipWith (complementRow (List.ofFn (heads a))) (List.ofFn (heads a))
      (List.ofFn fun i : Fin n => List.ofFn fun j : Fin (i.succ + 1) =>
        a i.succ (j.castLE i.succ.isLt))) = triangle (complement a) := by
    rw [zipWith_ofFn, triangle]
    congr 1
    funext i
    rw [complementRow, List.ofFn_succ, List.tail_cons]
    apply List.ext_getElem
    · simp only [List.length_zipWith, List.length_ofFn, Fin.val_succ]
      omega
    · intro j h₁ h₂
      simp only [List.getElem_zipWith, List.getElem_ofFn]
      rfl
  have hfinite : Arithmetic.isFinite (a 0 0) = true := rfl
  have hsqrt : Arithmetic.sqrt (a 0 0) = √(a 0 0) := rfl
  rw [triangle, List.ofFn_succ, columns]
  simp only [htop, hsqrt, hheads, hrows, hfinite, and_true]

lemma columns_isSome_iff {b : Matrix (Fin n) (Fin n) ℝ} (hb : b.IsSymm) :
    (columns n (triangle b)).isSome ↔ b.PosDef := by
  induction n with
  | zero =>
    have hdefinite : b.PosDef :=
      (posDef_iff_form_pos hb).mpr fun v hv => absurd (Subsingleton.elim v 0) hv
    simp [columns, hdefinite]
  | succ n ih =>
    rw [columns_triangle, posDef_iff_complement hb, ← ih (isSymm_complement hb)]
    split_ifs with hpivot
    · simp [hpivot]
    · simp [hpivot]

lemma columns_solve {b : Matrix (Fin n) (Fin n) ℝ} (hb : b.IsSymm) {cs : List (Column ℝ)}
    (h : columns n (triangle b) = some cs) (r : Fin n → ℝ) :
    ∃ x, backward (cs.zip (forward cs (List.ofFn r))) = List.ofFn x ∧ b *ᵥ x = r := by
  induction n generalizing cs with
  | zero =>
    refine ⟨r, ?_, Subsingleton.elim _ _⟩
    rw [columns, Option.some_inj] at h
    subst h
    rfl
  | succ n ih =>
    rw [columns_triangle] at h
    split_ifs at h with hpivot
    obtain ⟨later, hlater, rfl⟩ := Option.map_eq_some_iff.mp h
    have hroot := (Real.sqrt_pos.mpr hpivot).ne'
    obtain ⟨top, rest, rfl⟩ : ∃ top rest, r = Fin.cons top rest :=
      ⟨r 0, Fin.tail r, (Fin.cons_self_tail r).symm⟩
    obtain ⟨y, hy⟩ : ∃ y, top / √(b 0 0) = y := ⟨_, rfl⟩
    -- The later coordinates solve the complement's system, with `y` taken out of the right side.
    obtain ⟨u, hu, hsolve⟩ := ih (isSymm_complement hb) hlater (rest - y • heads b)
    have hreduced : List.zipWith (fun s l => s - l * y) (List.ofFn rest) (List.ofFn (heads b)) =
        List.ofFn (rest - y • heads b) := by
      rw [zipWith_ofFn]
      congr 1
      funext i
      rw [mul_comm]
      rfl
    refine ⟨Fin.cons ((y - heads b ⬝ᵥ u) / √(b 0 0)) u, ?_, ?_⟩
    · rw [List.ofFn_cons, forward]
      simp only [hy, hreduced, List.zip_cons_cons, backward, hu, reduceBy_ofFn, List.ofFn_cons]
    · rw [mulVec_cons hb hpivot, mul_div_cancel₀ _ hroot, sub_add_cancel, hsolve, ← hy,
        mul_div_cancel₀ _ hroot, add_sub_cancel]

lemma solve_eq_none_iff {b : Matrix (Fin n) (Fin n) ℝ} (hb : b.IsSymm) (r : List ℝ) :
    solve (Rows.ofMatrix b) r = none ↔ ¬ b.PosDef := by
  rw [← columns_isSome_iff hb, solve, factor, lowerTriangle_ofMatrix, Rows.length_ofMatrix,
    Option.map_eq_none_iff, Option.not_isSome_iff_eq_none]

lemma solve_eq_some {b : Matrix (Fin n) (Fin n) ℝ} (hb : b.IsSymm) {r : Fin n → ℝ} {x : List ℝ}
    (h : solve (Rows.ofMatrix b) (List.ofFn r) = some x) :
    ∃ z, x = List.ofFn z ∧ b *ᵥ z = r := by
  rw [solve, factor, lowerTriangle_ofMatrix, Rows.length_ofMatrix] at h
  obtain ⟨cs, hcs, rfl⟩ := Option.map_eq_some_iff.mp h
  exact columns_solve hb hcs r

/-- The symmetric matrix with the lower triangle of `a`. -/
def symmetrized (a : Matrix (Fin n) (Fin n) ℝ) : Matrix (Fin n) (Fin n) ℝ :=
  .of fun i j => if j ≤ i then a i j else a j i

lemma isSymm_symmetrized (a : Matrix (Fin n) (Fin n) ℝ) : (symmetrized a).IsSymm := by
  apply IsSymm.ext
  intro i j
  rcases lt_trichotomy i j with hij | rfl | hij
  · simp [symmetrized, hij.le, hij.not_ge]
  · rfl
  · simp [symmetrized, hij.le, hij.not_ge]

lemma triangle_symmetrized (a : Matrix (Fin n) (Fin n) ℝ) :
    triangle (symmetrized a) = triangle a := by
  unfold triangle
  congr 1
  funext i
  congr 1
  funext j
  have hj : j.castLE i.isLt ≤ i := Nat.le_of_lt_succ j.isLt
  exact if_pos hj

/-- Nothing above the diagonal is read. -/
lemma solve_symmetrized (a : Matrix (Fin n) (Fin n) ℝ) (r : List ℝ) :
    solve (Rows.ofMatrix (symmetrized a)) r = solve (Rows.ofMatrix a) r := by
  simp only [solve, factor, lowerTriangle_ofMatrix, Rows.length_ofMatrix, triangle_symmetrized]

/-- Of a matrix that need not be symmetric the lower triangle decides. There is an answer exactly when
the symmetric matrix with that triangle is positive definite, and it solves the system of that
matrix. -/
theorem solve_eq_some_iff_form_pos (a : Matrix (Fin n) (Fin n) ℝ) (b : Fin n → ℝ) (x : List ℝ) :
    solve (Rows.ofMatrix a) (List.ofFn b) = some x ↔
      (∀ v : Fin n → ℝ, v ≠ 0 → 0 < v ⬝ᵥ symmetrized a *ᵥ v) ∧
        ∃ z : Fin n → ℝ, x = List.ofFn z ∧ symmetrized a *ᵥ z = b := by
  have hsymm := isSymm_symmetrized a
  rw [← solve_symmetrized, ← posDef_iff_form_pos hsymm]
  constructor
  · intro h
    refine ⟨?_, solve_eq_some hsymm h⟩
    by_contra hnot
    rw [(solve_eq_none_iff hsymm _).mpr hnot] at h
    cases h
  · rintro ⟨hdefinite, z, rfl, hz⟩
    cases hsolve : solve (Rows.ofMatrix (symmetrized a)) (List.ofFn b) with
    | none => exact absurd hdefinite ((solve_eq_none_iff hsymm _).mp hsolve)
    | some y =>
      obtain ⟨u, rfl, hu⟩ := solve_eq_some hsymm hsolve
      rw [mulVec_injective_of_isUnit hdefinite.isUnit (hu.trans hz.symm)]

end Cholesky

end Downhill
