import Mathlib.Analysis.Matrix.Spectrum
import Downhill.Matrix.Spectrum
import Downhill.Proofs.RealMatrices

/-!
# Characteristic roots of small matrices

Over the real numbers the closed forms of the eigenvalues give all roots of the characteristic
polynomial, each as often as it occurs, largest first. For order three the matrix is moved to trace
zero and scaled. What is left of its cubic is that of the threefold cosine, provided that half of
the scaled determinant is a cosine at all. It is one: a symmetric matrix has three real eigenvalues,
so the discriminant of its cubic is not negative.
-/

namespace Downhill
open Matrix

namespace Spectrum

section Sorting

variable {F : Type} [Arithmetic F]

lemma insertUp_perm (x : F) (xs : List F) : (insertUp x xs).Perm (x :: xs) := by
  induction xs with
  | nil => exact .refl _
  | cons y ys ih =>
    rw [insertUp]
    split_ifs
    · exact (ih.cons y).trans (.swap x y ys)
    · exact .refl _

lemma foldl_insertUp_perm (xs sorted : List F) :
    (xs.foldl (fun sorted x => insertUp x sorted) sorted).Perm (xs ++ sorted) := by
  induction xs generalizing sorted with
  | nil => exact .refl _
  | cons x xs ih =>
    exact (ih _).trans (((insertUp_perm x sorted).append_left xs).trans List.perm_middle)

lemma descending_perm (xs : List F) : (descending xs).Perm xs := by
  have h := foldl_insertUp_perm xs []
  rw [List.append_nil] at h
  exact (List.reverse_perm _).trans h

lemma pairwise_insertUp (x : ℝ) {xs : List ℝ} (h : xs.Pairwise (· ≤ ·)) :
    (insertUp x xs).Pairwise (· ≤ ·) := by
  induction xs with
  | nil => exact List.pairwise_singleton ..
  | cons y ys ih =>
    obtain ⟨hy, hys⟩ := List.pairwise_cons.mp h
    rw [insertUp]
    split_ifs with hlt
    · refine List.pairwise_cons.mpr ⟨fun z hz => ?_, ih hys⟩
      rcases List.mem_cons.mp ((insertUp_perm x ys).mem_iff.mp hz) with rfl | hz
      · exact hlt.le
      · exact hy z hz
    · have hxy := not_lt.mp hlt
      refine List.pairwise_cons.mpr ⟨fun z hz => ?_, h⟩
      rcases List.mem_cons.mp hz with rfl | hz
      · exact hxy
      · exact hxy.trans (hy z hz)

lemma pairwise_descending (xs : List ℝ) : (descending xs).Pairwise (· ≥ ·) := by
  have hsorted : ∀ sorted : List ℝ, sorted.Pairwise (· ≤ ·) →
      (xs.foldl (fun sorted x => insertUp x sorted) sorted).Pairwise (· ≤ ·) := by
    induction xs with
    | nil => exact fun _ h => h
    | cons x xs ih => exact fun sorted h => ih _ (pairwise_insertUp x h)
  exact List.pairwise_reverse.mpr (hsorted [] .nil)

end Sorting

/-- The roots of the characteristic polynomial of a matrix, each as often as it occurs, largest
first. -/
structure IsSpectrum {n : ℕ} (A : Matrix (Fin n) (Fin n) ℝ) (values : List ℝ) : Prop where
  length_eq : values.length = n
  descending : values.Pairwise (· ≥ ·)
  det_eq : ∀ x : ℝ, (x • 1 - A).det = (values.map (x - ·)).prod

lemma isSpectrum_descending {n : ℕ} {A : Matrix (Fin n) (Fin n) ℝ} {values : List ℝ}
    (hlength : values.length = n)
    (hdet : ∀ x : ℝ, (x • 1 - A).det = (values.map (x - ·)).prod) :
    IsSpectrum A (Spectrum.descending values) where
  length_eq := (descending_perm values).length_eq.trans hlength
  descending := pairwise_descending values
  det_eq x := (hdet x).trans ((descending_perm values).map _).prod_eq.symm

lemma decimal_two : (2.0 : ℝ) = 2 := by norm_num

lemma decimal_three : (3.0 : ℝ) = 3 := by norm_num

section OrderTwo

lemma orderTwo_eq (p q d : ℝ) :
    orderTwo p q d = [(p + d) / 2 + √(((p - d) / 2) ^ 2 + q ^ 2),
      (p + d) / 2 - √(((p - d) / 2) ^ 2 + q ^ 2)] := by
  simp only [orderTwo, decimal_two, sq]
  rfl

lemma det_orderTwo {A : Matrix (Fin 2) (Fin 2) ℝ} (hA : A.IsSymm) (x : ℝ) :
    (x • 1 - A).det = ((orderTwo (A 0 0) (A 0 1) (A 1 1)).map (x - ·)).prod := by
  have hroot := Real.sq_sqrt (add_nonneg (sq_nonneg ((A 0 0 - A 1 1) / 2)) (sq_nonneg (A 0 1)))
  have hdet : (x • 1 - A).det = (x - A 0 0) * (x - A 1 1) - A 0 1 ^ 2 := by
    simp [det_fin_two, hA.apply 0 1, sq]
  rw [hdet, orderTwo_eq]
  simp only [List.map_cons, List.map_nil, List.prod_cons, List.prod_nil]
  linear_combination hroot

end OrderTwo

section OrderThree

/-- What the closed form for order three computes before it takes an angle: the mean of the roots,
the scale that the moved matrix is divided by, and half of the determinant of the quotient. -/
structure CubicTerms (F : Type) where
  mean : F
  scale : F
  halfDet : F

def cubicTerms {F : Type} [Arithmetic F] (a00 a01 a02 a11 a12 a22 : F) : CubicTerms F :=
  let off := a01 * a01 + a02 * a02 + a12 * a12
  let q := (a00 + a11 + a22) / 3.0
  let d0 := a00 - q
  let d1 := a11 - q
  let d2 := a22 - q
  let p := Arithmetic.sqrt ((d0 * d0 + d1 * d1 + d2 * d2 + 2.0 * off) / 6.0)
  let b00 := d0 / p
  let b11 := d1 / p
  let b22 := d2 / p
  let b01 := a01 / p
  let b02 := a02 / p
  let b12 := a12 / p
  let det := b00 * (b11 * b22 - b12 * b12) - b01 * (b01 * b22 - b12 * b02)
    + b02 * (b01 * b12 - b11 * b02)
  ⟨q, p, det / 2.0⟩

/-- The roots for the cosine `r` of the threefold angle. -/
def CubicTerms.roots {F : Type} [Arithmetic F] (t : CubicTerms F) (r : F) : List F :=
  let phi := Arithmetic.acos r / 3.0
  let largest := t.mean + 2.0 * t.scale * Arithmetic.cos phi
  let smallest := t.mean + 2.0 * t.scale * Arithmetic.cos (phi + Arithmetic.thirdTurn)
  [largest, 3.0 * t.mean - largest - smallest, smallest]

lemma orderThree_eq_roots {F : Type} [Arithmetic F] (a00 a01 a02 a11 a12 a22 : F) :
    orderThree a00 a01 a02 a11 a12 a22 =
      if a01 * a01 + a02 * a02 + a12 * a12 == 0 then [a00, a11, a22]
      else
        let terms := cubicTerms a00 a01 a02 a11 a12 a22
        terms.roots (Arithmetic.minNum (Arithmetic.maxNum terms.halfDet (-1)) 1) :=
  rfl

lemma length_orderThree {F : Type} [Arithmetic F] (a00 a01 a02 a11 a12 a22 : F) :
    (orderThree a00 a01 a02 a11 a12 a22).length = 3 := by
  unfold orderThree
  dsimp only
  split <;> rfl

variable (A : Matrix (Fin 3) (Fin 3) ℝ)

/-- The mean of the eigenvalues. -/
noncomputable def center : ℝ :=
  (A 0 0 + A 1 1 + A 2 2) / 3.0

/-- Half of the mean square of the eigenvalues around their mean. -/
noncomputable def variation : ℝ :=
  ((A 0 0 - center A) ^ 2 + (A 1 1 - center A) ^ 2 + (A 2 2 - center A) ^ 2 +
    2.0 * (A 0 1 ^ 2 + A 0 2 ^ 2 + A 1 2 ^ 2)) / 6.0

noncomputable def spread : ℝ :=
  √(variation A)

/-- Half of the determinant of the matrix that is moved to trace zero and scaled by its spread. -/
noncomputable def turn : ℝ :=
  -(center A • 1 - A).det / (2.0 * spread A ^ 3)

lemma center_eq : center A = (A 0 0 + A 1 1 + A 2 2) / 3 := by
  rw [center, decimal_three]

lemma variation_eq : variation A =
    ((A 0 0 - center A) ^ 2 + (A 1 1 - center A) ^ 2 + (A 2 2 - center A) ^ 2 +
      2 * (A 0 1 ^ 2 + A 0 2 ^ 2 + A 1 2 ^ 2)) / 6 := by
  have hsix : (6.0 : ℝ) = 6 := by norm_num
  rw [variation, decimal_two, hsix]

lemma turn_eq : turn A = -(center A • 1 - A).det / (2 * spread A ^ 3) := by
  rw [turn, decimal_two]

variable {A}

lemma det_three (hA : A.IsSymm) (x : ℝ) :
    (x • 1 - A).det = (x - A 0 0) * ((x - A 1 1) * (x - A 2 2) - A 1 2 ^ 2) -
      A 0 1 * (A 0 1 * (x - A 2 2) + A 1 2 * A 0 2) -
      A 0 2 * (A 0 1 * A 1 2 + (x - A 1 1) * A 0 2) := by
  have hdiagonal : ∀ i, (x • 1 - A) i i = x - A i i := by simp
  have hoff : ∀ i j, i ≠ j → (x • 1 - A) i j = -A i j := by simp +contextual
  rw [det_fin_three, hdiagonal, hdiagonal, hdiagonal, hoff 0 1 (by decide), hoff 0 2 (by decide),
    hoff 1 0 (by decide), hoff 1 2 (by decide), hoff 2 0 (by decide), hoff 2 1 (by decide),
    hA.apply 0 1, hA.apply 0 2, hA.apply 1 2]
  ring

lemma det_centered (hA : A.IsSymm) (y : ℝ) :
    ((y + center A) • 1 - A).det =
      y ^ 3 - 3 * variation A * y + (center A • 1 - A).det := by
  rw [det_three hA, det_three hA, variation_eq, center_eq]
  ring

lemma exists_real_roots (hA : A.IsSymm) :
    ∃ m : Fin 3 → ℝ, ∀ x : ℝ, (x • 1 - A).det = ∏ i, (x - m i) := by
  have hherm : A.IsHermitian := isHermitian_iff_isSymm.mpr hA
  refine ⟨hherm.eigenvalues, fun x => ?_⟩
  have heval : A.charpoly.eval x = ∏ i, (x - hherm.eigenvalues i) := by
    simp [hherm.charpoly_eq, Polynomial.eval_prod]
  rw [← heval, eval_charpoly, scalar_apply, smul_one_eq_diagonal]

lemma sq_det_le (hA : A.IsSymm) : (center A • 1 - A).det ^ 2 ≤ 4 * variation A ^ 3 := by
  obtain ⟨m, hm⟩ := exists_real_roots hA
  have hcubic : ∀ y : ℝ, y ^ 3 - 3 * variation A * y + (center A • 1 - A).det =
      (y - (m 0 - center A)) * (y - (m 1 - center A)) * (y - (m 2 - center A)) := by
    intro y
    rw [← det_centered hA, hm, Fin.prod_univ_three]
    ring
  -- In terms of its three real roots the discriminant of the cubic is a square.
  generalize m 0 - center A = u, m 1 - center A = v, m 2 - center A = w at hcubic
  have hzero := hcubic 0
  have hone := hcubic 1
  have hminus := hcubic (-1)
  have hdet : (center A • 1 - A).det = -(u * v * w) := by linear_combination hzero
  have hsum : w = -u - v := by linear_combination hone / 2 + hminus / 2 - hzero
  have hpairs : variation A = (u ^ 2 + u * v + v ^ 2) / 3 := by
    rw [hsum] at hone hminus
    linear_combination (hminus - hone) / 6
  have hsquare := sq_nonneg ((u - v) * (u - w) * (v - w))
  rw [hdet, hpairs, hsum]
  rw [hsum] at hsquare
  linarith

lemma variation_pos (hoff : A 0 1 ^ 2 + A 0 2 ^ 2 + A 1 2 ^ 2 ≠ 0) : 0 < variation A := by
  have hpos : 0 < A 0 1 ^ 2 + A 0 2 ^ 2 + A 1 2 ^ 2 := lt_of_le_of_ne (by positivity) hoff.symm
  rw [variation_eq]
  positivity

lemma spread_pos (hoff : A 0 1 ^ 2 + A 0 2 ^ 2 + A 1 2 ^ 2 ≠ 0) : 0 < spread A :=
  Real.sqrt_pos.mpr (variation_pos hoff)

/-- Half of the scaled determinant is a cosine, so it is not changed when it is kept between the
bounds of one. -/
lemma abs_turn_le (hA : A.IsSymm) (hoff : A 0 1 ^ 2 + A 0 2 ^ 2 + A 1 2 ^ 2 ≠ 0) :
    |turn A| ≤ 1 := by
  have hspread := spread_pos hoff
  have hsq : spread A ^ 2 = variation A := Real.sq_sqrt (variation_pos hoff).le
  rw [← sq_le_one_iff_abs_le_one, turn_eq, div_pow, neg_sq, div_le_one (by positivity)]
  calc (center A • 1 - A).det ^ 2
    _ ≤ 4 * variation A ^ 3 := sq_det_le hA
    _ = (2 * spread A ^ 3) ^ 2 := by rw [← hsq]; ring

lemma cos_thirds (phi : ℝ) :
    Real.cos phi ^ 2 + Real.cos phi * Real.cos (phi + 2 * Real.pi / 3) +
      Real.cos (phi + 2 * Real.pi / 3) ^ 2 = 3 / 4 := by
  have hangle : 2 * Real.pi / 3 = Real.pi - Real.pi / 3 := by ring
  have hthree : √3 ^ 2 = 3 := Real.sq_sqrt (by norm_num)
  have hone := Real.sin_sq_add_cos_sq phi
  rw [Real.cos_add, hangle, Real.cos_pi_sub, Real.sin_pi_sub, Real.cos_pi_div_three,
    Real.sin_pi_div_three]
  linear_combination (3 / 4) * hone + (Real.sin phi ^ 2 / 4) * hthree

/-- The three values of the closed form, before they are sorted. -/
noncomputable def thirds (A : Matrix (Fin 3) (Fin 3) ℝ) : List ℝ :=
  let phi := Real.arccos (turn A) / 3.0
  let largest := center A + 2.0 * spread A * Real.cos phi
  let smallest := center A + 2.0 * spread A * Real.cos (phi + Arithmetic.thirdTurn)
  [largest, 3.0 * center A - largest - smallest, smallest]

lemma det_thirds (hA : A.IsSymm) (hoff : A 0 1 ^ 2 + A 0 2 ^ 2 + A 1 2 ^ 2 ≠ 0) (x : ℝ) :
    (x • 1 - A).det = ((thirds A).map (x - ·)).prod := by
  have hspread := spread_pos hoff
  have hsq : spread A ^ 2 = variation A := Real.sq_sqrt (variation_pos hoff).le
  obtain ⟨hlow, hhigh⟩ := abs_le.mp (abs_turn_le hA hoff)
  have hthirds := cos_thirds (Real.arccos (turn A) / 3)
  have hthree : 4 * Real.cos (Real.arccos (turn A) / 3) ^ 3 -
      3 * Real.cos (Real.arccos (turn A) / 3) = turn A := by
    rw [← Real.cos_three_mul, mul_div_cancel₀ _ three_ne_zero, Real.cos_arccos hlow hhigh]
  have hdet : -(center A • 1 - A).det = 2 * spread A ^ 3 * turn A :=
    turn_eq A ▸ (mul_div_cancel₀ _ (by positivity)).symm
  have hcentered := det_centered hA (x - center A)
  rw [sub_add_cancel, ← hsq, neg_eq_iff_eq_neg.mp hdet] at hcentered
  have hturn : (Arithmetic.thirdTurn : ℝ) = 2 * Real.pi / 3 := rfl
  rw [hcentered]
  simp only [thirds, decimal_two, decimal_three, hturn, List.map_cons, List.map_nil, List.prod_cons,
    List.prod_nil]
  generalize Real.cos (Real.arccos (turn A) / 3) = c,
    Real.cos (Real.arccos (turn A) / 3 + 2 * Real.pi / 3) = c' at hthirds hthree
  rw [← hthree]
  linear_combination
    4 * (spread A ^ 2 * (x - center A) - 2 * spread A ^ 3 * c) * hthirds

lemma cubicTerms_eq (hA : A.IsSymm) (hoff : A 0 1 ^ 2 + A 0 2 ^ 2 + A 1 2 ^ 2 ≠ 0) :
    cubicTerms (A 0 0) (A 0 1) (A 0 2) (A 1 1) (A 1 2) (A 2 2) =
      ⟨center A, spread A, turn A⟩ := by
  have hne := (spread_pos hoff).ne'
  have hcenter : (A 0 0 + A 1 1 + A 2 2) / 3.0 = center A := rfl
  have hspread : Arithmetic.sqrt (((A 0 0 - center A) * (A 0 0 - center A) +
      (A 1 1 - center A) * (A 1 1 - center A) + (A 2 2 - center A) * (A 2 2 - center A) +
      2.0 * (A 0 1 * A 0 1 + A 0 2 * A 0 2 + A 1 2 * A 1 2)) / 6.0) = spread A := by
    simp only [spread, variation, sq]
    rfl
  simp only [cubicTerms, hcenter, hspread, CubicTerms.mk.injEq, true_and]
  rw [turn_eq, det_three hA, decimal_two]
  field_simp
  ring

lemma orderThree_eq_roots_halfDet (hA : A.IsSymm)
    (hoff : A 0 1 ^ 2 + A 0 2 ^ 2 + A 1 2 ^ 2 ≠ 0) :
    let terms := cubicTerms (A 0 0) (A 0 1) (A 0 2) (A 1 1) (A 1 2) (A 2 2)
    orderThree (A 0 0) (A 0 1) (A 0 2) (A 1 1) (A 1 2) (A 2 2) = terms.roots terms.halfDet := by
  have hzero : (A 0 1 * A 0 1 + A 0 2 * A 0 2 + A 1 2 * A 1 2 == 0) = false := by
    simp only [← sq]
    exact decide_eq_false hoff
  obtain ⟨hlow, hhigh⟩ := abs_le.mp (abs_turn_le hA hoff)
  simp only [orderThree_eq_roots, hzero, Bool.false_eq_true, if_false, cubicTerms_eq hA hoff,
    maxNum_eq_max, minNum_eq_min, max_eq_left hlow, min_eq_left hhigh]

lemma orderThree_eq_thirds (hA : A.IsSymm) (hoff : A 0 1 ^ 2 + A 0 2 ^ 2 + A 1 2 ^ 2 ≠ 0) :
    orderThree (A 0 0) (A 0 1) (A 0 2) (A 1 1) (A 1 2) (A 2 2) = thirds A := by
  rw [orderThree_eq_roots_halfDet hA hoff, cubicTerms_eq hA hoff]
  rfl

lemma offDiagonal_eq_zero (hA : A.IsSymm) (h : A 0 1 ^ 2 + A 0 2 ^ 2 + A 1 2 ^ 2 = 0) :
    ∀ i j, i ≠ j → A i j = 0 := by
  have hsq01 := sq_nonneg (A 0 1)
  have hsq02 := sq_nonneg (A 0 2)
  have hsq12 := sq_nonneg (A 1 2)
  have h01 : A 0 1 = 0 := sq_eq_zero_iff.mp (by linarith)
  have h02 : A 0 2 = 0 := sq_eq_zero_iff.mp (by linarith)
  have h12 : A 1 2 = 0 := sq_eq_zero_iff.mp (by linarith)
  have h10 : A 1 0 = 0 := (hA.apply 0 1).trans h01
  have h20 : A 2 0 = 0 := (hA.apply 0 2).trans h02
  have h21 : A 2 1 = 0 := (hA.apply 1 2).trans h12
  intro i j hij
  fin_cases i <;> fin_cases j <;> first | exact absurd rfl hij | assumption

lemma det_orderThree (hA : A.IsSymm) (x : ℝ) :
    (x • 1 - A).det =
      ((orderThree (A 0 0) (A 0 1) (A 0 2) (A 1 1) (A 1 2) (A 2 2)).map (x - ·)).prod := by
  by_cases hoff : A 0 1 ^ 2 + A 0 2 ^ 2 + A 1 2 ^ 2 = 0
  -- A diagonal matrix has no spread to divide by, and is answered with its diagonal.
  · have hzero := offDiagonal_eq_zero hA hoff
    have hvalues : orderThree (A 0 0) 0 0 (A 1 1) 0 (A 2 2) = [A 0 0, A 1 1, A 2 2] :=
      if_pos (decide_eq_true (by norm_num))
    rw [det_three hA, hzero 0 1 (by decide), hzero 0 2 (by decide), hzero 1 2 (by decide), hvalues]
    simp only [List.map_cons, List.map_nil, List.prod_cons, List.prod_nil]
    ring
  · rw [orderThree_eq_thirds hA hoff, det_thirds hA hoff]

end OrderThree

/-- The closed forms find the spectrum of every symmetric matrix of order one to three. -/
theorem exists_isSpectrum {n : ℕ} (hpos : 0 < n) (hn : n ≤ 3) {A : Matrix (Fin n) (Fin n) ℝ}
    (hA : A.IsSymm) :
    ∃ values, eigenvalues (Rows.ofMatrix A) = some values ∧ IsSpectrum A values := by
  unfold eigenvalues
  rw [if_pos (Rows.isFinite_ofMatrix A)]
  interval_cases n
  · exact ⟨[A 0 0], rfl, rfl, List.pairwise_singleton .., fun x => by simp⟩
  · exact ⟨_, rfl, isSpectrum_descending rfl (det_orderTwo hA)⟩
  · exact ⟨_, rfl, isSpectrum_descending (length_orderThree ..) (det_orderThree hA)⟩

/-- The closed forms find the spectrum of every symmetric matrix of order one to three. Where the one
for order three divides by the scale, it is positive, and where it takes the angle of half the
determinant, that is a cosine, so keeping it between the bounds changes nothing. -/
theorem closed_forms_find_spectrum :
    (∀ (n : ℕ) (A : Matrix (Fin n) (Fin n) ℝ), 0 < n → n ≤ 3 → A.IsSymm →
      ∃ values, eigenvalues (Rows.ofMatrix A) = some values ∧ IsSpectrum A values) ∧
    ∀ A : Matrix (Fin 3) (Fin 3) ℝ, A.IsSymm → (∃ i j, i ≠ j ∧ A i j ≠ 0) →
      let terms := cubicTerms (A 0 0) (A 0 1) (A 0 2) (A 1 1) (A 1 2) (A 2 2)
      0 < terms.scale ∧ -1 ≤ terms.halfDet ∧ terms.halfDet ≤ 1 ∧
      eigenvalues (Rows.ofMatrix A) = some (descending (terms.roots terms.halfDet)) := by
  refine ⟨fun n A hpos hn hA => exists_isSpectrum hpos hn hA, fun A hA hne => ?_⟩
  have hoff : A 0 1 ^ 2 + A 0 2 ^ 2 + A 1 2 ^ 2 ≠ 0 := by
    intro hzero
    obtain ⟨i, j, hij, hentry⟩ := hne
    exact hentry (offDiagonal_eq_zero hA hzero i j hij)
  have hvalues : eigenvalues (Rows.ofMatrix A) =
      some (descending (orderThree (A 0 0) (A 0 1) (A 0 2) (A 1 1) (A 1 2) (A 2 2))) :=
    if_pos (Rows.isFinite_ofMatrix A)
  rw [hvalues, orderThree_eq_roots_halfDet hA hoff, cubicTerms_eq hA hoff]
  obtain ⟨hlow, hhigh⟩ := abs_le.mp (abs_turn_le hA hoff)
  exact ⟨spread_pos hoff, hlow, hhigh, rfl⟩

/-- The matrix of `2 (x y + x z + y z)`, which has a double eigenvalue. -/
def triangleMatrix : Matrix (Fin 3) (Fin 3) ℝ :=
  !![0, 1, 1; 1, 0, 1; 1, 1, 0]

lemma triangle_cubicTerms : cubicTerms (0 : ℝ) 1 1 0 1 0 = ⟨0, 1, 1⟩ := by
  have hroot : Arithmetic.sqrt (1 : ℝ) = 1 := Real.sqrt_one
  have hsix : (2.0 * (1 + 1 + 1) / 6.0 : ℝ) = 1 := by norm_num
  simp only [cubicTerms, mul_one, add_zero, sub_zero, zero_add, zero_div, mul_zero, hsix, hroot,
    div_one]
  norm_num

/-- At a double eigenvalue half of the determinant is at the bound. -/
theorem triangle_spectrum : ∃ values, eigenvalues (Rows.ofMatrix triangleMatrix) = some values ∧
    values.length = 3 ∧ values.Pairwise (· ≥ ·) ∧
    (∀ x, (values.map (x - ·)).prod = (x - 2) * (x + 1) ^ 2) ∧
    values = descending (CubicTerms.roots ⟨0, 1, 1⟩ 1) := by
  have hsymm : triangleMatrix.IsSymm := by
    ext i j
    fin_cases i <;> fin_cases j <;> rfl
  obtain ⟨values, hvalues, hspectrum⟩ :=
    closed_forms_find_spectrum.1 3 triangleMatrix three_pos le_rfl hsymm
  obtain ⟨-, -, -, hroots⟩ := closed_forms_find_spectrum.2 triangleMatrix hsymm
    ⟨0, 1, by decide, one_ne_zero⟩
  have hterms : cubicTerms (triangleMatrix 0 0) (triangleMatrix 0 1) (triangleMatrix 0 2)
      (triangleMatrix 1 1) (triangleMatrix 1 2) (triangleMatrix 2 2) = ⟨0, 1, 1⟩ :=
    triangle_cubicTerms
  rw [hterms, hvalues] at hroots
  refine ⟨values, hvalues, hspectrum.length_eq, hspectrum.descending, fun x => ?_,
    Option.some_inj.mp hroots⟩
  rw [← hspectrum.det_eq, det_three hsymm]
  simp only [triangleMatrix, of_apply, cons_val]
  ring

end Spectrum

end Downhill
