import Mathlib.Data.List.Perm.Basic
import Mathlib.LinearAlgebra.Matrix.NonsingularInverse
import Downhill.Matrix.LU
import Downhill.Proofs.RealMatrices

/-!
# Elimination solves systems

A column of the elimination moves a row whose leading magnitude is largest to the top and takes
multiples of it out of the others. The values found by the forward pass and the solution that is
built back from them satisfy every row as it stood before the column, so by induction every row of
the matrix. A matrix whose systems all have solutions is regular.
-/

namespace Downhill
open Matrix
open scoped List

namespace LU

/-- A row with `solved` multipliers taken out and `width` entries left. -/
structure Row.HasShape (solved width : ℕ) (r : Row ℝ) : Prop where
  lower : r.lower.length = solved
  rest : r.rest.length = width

namespace Row

variable {solved width : ℕ} {pivot r : Row ℝ}

lemma HasShape.dot_cons (h : r.HasShape solved (width + 1)) (x : ℝ) (later : List ℝ) :
    dot r.rest (x :: later) = r.head * x + dot r.rest.tail later := by
  obtain ⟨y, ys, hcons⟩ := List.exists_cons_of_length_eq_add_one h.rest
  rw [head, hcons, Downhill.dot_cons]
  rfl

lemma HasShape.tail_length (h : r.HasShape solved (width + 1)) : r.rest.tail.length = width := by
  rw [List.length_tail, h.rest, Nat.add_sub_cancel]

lemma HasShape.eliminate (hpivot : pivot.HasShape solved (width + 1))
    (h : r.HasShape solved (width + 1)) : (pivot.eliminate r).HasShape (solved + 1) width := by
  constructor
  · simp [Row.eliminate, h.lower]
  · rw [Row.eliminate, List.length_zipWith, h.tail_length, hpivot.tail_length, Nat.min_self]

end Row

/-! ### The choice of a pivot -/

lemma pivotPlace_eq (rows : List (Row ℝ)) (i : ℕ) (best : ℕ × ℝ) :
    pivotPlace rows i best = best ∨
      ∃ j r, rows[j]? = some r ∧ pivotPlace rows i best = (i + j, |r.head|) := by
  induction rows generalizing i best with
  | nil => exact .inl rfl
  | cons r rows ih =>
    rw [pivotPlace]
    rcases ih (i + 1) (if best.2 < Arithmetic.abs r.head then (i, Arithmetic.abs r.head) else best)
      with hbest | ⟨j, s, hs, hfound⟩
    · rw [hbest]
      split_ifs
      · exact .inr ⟨0, r, rfl, rfl⟩
      · exact .inl rfl
    · refine .inr ⟨j + 1, s, hs, ?_⟩
      rw [hfound, Nat.add_right_comm, Nat.add_assoc]

lemma le_pivotPlace (rows : List (Row ℝ)) (i : ℕ) (best : ℕ × ℝ) :
    best.2 ≤ (pivotPlace rows i best).2 ∧ ∀ r ∈ rows, |r.head| ≤ (pivotPlace rows i best).2 := by
  induction rows generalizing i best with
  | nil => simp [pivotPlace]
  | cons r rows ih =>
    rw [pivotPlace]
    split_ifs with hlt
    · obtain ⟨hbest, hrows⟩ := ih (i + 1) (i, |r.head|)
      exact ⟨hlt.le.trans hbest, List.forall_mem_cons.mpr ⟨hbest, hrows⟩⟩
    · obtain ⟨hbest, hrows⟩ := ih (i + 1) best
      exact ⟨hbest, List.forall_mem_cons.mpr ⟨(not_lt.mp hlt).trans hbest, hrows⟩⟩

lemma exchange_perm (top : Row ℝ) (others : List (Row ℝ)) (i : ℕ) :
    (exchange top others i).1 :: (exchange top others i).2 ~ top :: others := by
  unfold exchange
  cases hrow : others[i]? with
  | none => exact .refl _
  | some r =>
    obtain ⟨hi, rfl⟩ := List.getElem?_eq_some_iff.mp hrow
    calc others[i] :: others.set i top
      _ ~ others[i] :: top :: others.eraseIdx i := (List.set_perm_cons_eraseIdx hi top).cons _
      _ ~ top :: others[i] :: others.eraseIdx i := .swap ..
      _ ~ top :: others := (List.getElem_cons_eraseIdx_perm hi).cons top

/-- The row that clears the next column and the other rows, with the leading magnitude that the search
has found for the former. -/
def choosePivot {F : Type} [Arithmetic F] (top : Row F) (others : List (Row F)) :
    F × Row F × List (Row F) :=
  let (place, size) := pivotPlace others 1 (0, Arithmetic.abs top.head)
  match place with
  | 0 => (size, top, others)
  | i + 1 => (size, exchange top others i)

lemma eliminate_cons {F : Type} [Arithmetic F] (t : F) (columns : ℕ) (top : Row F)
    (others : List (Row F)) :
    eliminate t (columns + 1) (top :: others) =
      let (size, pivot, others) := choosePivot top others
      if size < t then none
      else (eliminate t columns (others.map pivot.eliminate)).map (pivot :: ·) := by
  rw [eliminate, choosePivot]
  obtain ⟨place, size⟩ := pivotPlace others 1 (0, Arithmetic.abs top.head)
  cases place <;> rfl

lemma choosePivot_eq (top : Row ℝ) (others : List (Row ℝ)) :
    ∃ pivot rest, choosePivot top others = (|pivot.head|, pivot, rest) ∧
      pivot :: rest ~ top :: others ∧ ∀ r ∈ top :: others, |r.head| ≤ |pivot.head| := by
  obtain ⟨htop, hothers⟩ := le_pivotPlace others 1 (0, |top.head|)
  have hmax : ∀ r ∈ top :: others, |r.head| ≤ (pivotPlace others 1 (0, |top.head|)).2 :=
    List.forall_mem_cons.mpr ⟨htop, hothers⟩
  have habs : ∀ x : ℝ, Arithmetic.abs x = |x| := fun _ => rfl
  rcases pivotPlace_eq others 1 (0, |top.head|) with hfound | ⟨j, r, hr, hfound⟩
  · refine ⟨top, others, ?_, .refl _, ?_⟩
    · simp only [choosePivot, habs, hfound]
    · simpa only [hfound] using hmax
  · have hexchange : exchange top others j = (r, others.set j top) := by
      simp only [exchange, hr]
    refine ⟨r, others.set j top, ?_, ?_, ?_⟩
    · simp only [choosePivot, habs, hfound, Nat.add_comm 1 j, hexchange]
    · simpa only [hexchange] using exchange_perm top others j
    · simpa only [hfound] using hmax

/-- A column is cleared by a row of the largest leading magnitude. -/
lemma eliminate_eq (t : ℝ) (columns : ℕ) {rows : List (Row ℝ)} (hrows : rows ≠ []) :
    ∃ pivot others, pivot :: others ~ rows ∧ (∀ r ∈ rows, |r.head| ≤ |pivot.head|) ∧
      eliminate t (columns + 1) rows =
        if |pivot.head| < t then none
        else (eliminate t columns (others.map pivot.eliminate)).map (pivot :: ·) := by
  obtain ⟨top, others, rfl⟩ := List.exists_cons_of_ne_nil hrows
  obtain ⟨pivot, rest, hchoice, hperm, hmax⟩ := choosePivot_eq top others
  exact ⟨pivot, rest, hperm, hmax, by rw [eliminate_cons, hchoice]⟩

/-! ### The values of a system -/

/-- The values that the forward pass adds to those in `solved`. -/
def forwardFrom {F : Type} [Arithmetic F] (b : List F) :
    List (Row F) → (solved : List F) → List F
  | [], _ => []
  | r :: rows, solved =>
    let y := reduceBy (b.getD r.index 0) r.lower solved
    y :: forwardFrom b rows (solved ++ [y])

lemma forward_eq (b : List ℝ) (rows : List (Row ℝ)) (solved : List ℝ) :
    forward b rows solved = solved ++ forwardFrom b rows solved := by
  induction rows generalizing solved with
  | nil => rw [forward, forwardFrom, List.append_nil]
  | cons r rows ih =>
    rw [forward, ih, forwardFrom]
    simp only [List.append_assoc, List.singleton_append]

lemma reduceBy_append {coefficients values : List ℝ} (b c y : ℝ)
    (h : coefficients.length = values.length) :
    reduceBy b (coefficients ++ [c]) (values ++ [y]) = reduceBy b coefficients values - c * y := by
  rw [reduceBy, reduceBy, List.zip_append h, List.foldl_append]
  rfl

/-- A row before its column is cleared is a multiple of the pivot row and the row after it. -/
lemma Row.HasShape.dot_eliminate {pivot r : Row ℝ} {later : List ℝ} {solved width : ℕ}
    (hr : r.HasShape solved (width + 1)) (hpivot : pivot.HasShape solved (width + 1))
    (hlater : later.length = width) (hhead : pivot.head ≠ 0) (x : ℝ) :
    dot r.rest (x :: later) = r.head / pivot.head * dot pivot.rest (x :: later) +
      dot (pivot.eliminate r).rest later := by
  have hfactor : r.head / pivot.head * pivot.head = r.head := div_mul_cancel₀ _ hhead
  rw [Row.eliminate, dot_zipWith_sub _ hr.tail_length hpivot.tail_length hlater, hr.dot_cons,
    hpivot.dot_cons]
  conv_lhs => rw [← hfactor]
  ring

/-- A row that agrees with the solution after its column is cleared did so before, if the pivot row
does. -/
lemma Row.HasShape.dot_eq_of_eliminate {pivot r : Row ℝ} {solved later : List ℝ} {width : ℕ}
    {x y b : ℝ} (hr : r.HasShape solved.length (width + 1))
    (hpivot : pivot.HasShape solved.length (width + 1)) (hlater : later.length = width)
    (hhead : pivot.head ≠ 0) (hx : pivot.head * x + dot pivot.rest.tail later = y)
    (h : dot (pivot.eliminate r).rest later =
      reduceBy b (pivot.eliminate r).lower (solved ++ [y])) :
    dot r.rest (x :: later) = reduceBy b r.lower solved := by
  have hlower : reduceBy b (pivot.eliminate r).lower (solved ++ [y]) =
      reduceBy b r.lower solved - r.head / pivot.head * y :=
    reduceBy_append _ _ _ hr.lower
  rw [hr.dot_eliminate hpivot hlater hhead, hpivot.dot_cons, hx, h, hlower]
  ring

/-- The rows other than the pivot row, after their column is cleared. -/
lemma forall_hasShape_cleared {pivot : Row ℝ} {others rows : List (Row ℝ)} {solved columns : ℕ}
    (hperm : pivot :: others ~ rows) (hrows : rows.length = columns + 1)
    (hshape : ∀ r ∈ rows, r.HasShape solved (columns + 1)) :
    (others.map pivot.eliminate).length = columns ∧
      ∀ r ∈ others.map pivot.eliminate, r.HasShape (solved + 1) columns := by
  constructor
  · have hlength := hperm.length_eq
    rw [hrows, List.length_cons] at hlength
    rw [List.length_map]
    omega
  · intro r hr
    obtain ⟨s, hs, rfl⟩ := List.mem_map.mp hr
    exact (hshape pivot (hperm.subset List.mem_cons_self)).eliminate
      (hshape s (hperm.subset (List.mem_cons_of_mem _ hs)))

/-- What the elimination of the remaining columns leads to satisfies every remaining row. -/
lemma eliminate_solve {t : ℝ} (ht : 0 < t) (b solved : List ℝ) {columns : ℕ}
    {rows final : List (Row ℝ)} (hrows : rows.length = columns)
    (hshape : ∀ r ∈ rows, r.HasShape solved.length columns)
    (h : eliminate t columns rows = some final) :
    ∃ x, backward ((final.map Row.rest).zip (forwardFrom b final solved)) = x ∧
      x.length = columns ∧
      ∀ r ∈ rows, dot r.rest x = reduceBy (b.getD r.index 0) r.lower solved := by
  induction columns generalizing rows final solved with
  | zero =>
    obtain rfl := List.length_eq_zero_iff.mp hrows
    cases h
    exact ⟨[], rfl, rfl, by simp⟩
  | succ columns ih =>
    obtain ⟨pivot, others, hperm, -, hstep⟩ :=
      eliminate_eq t columns (List.ne_nil_of_length_eq_add_one hrows)
    rw [hstep] at h
    split_ifs at h with hsmall
    obtain ⟨later, hlater, rfl⟩ := Option.map_eq_some_iff.mp h
    have hhead : pivot.head ≠ 0 := abs_pos.mp (ht.trans_le (not_lt.mp hsmall))
    have hpivot := hshape pivot (hperm.subset List.mem_cons_self)
    have hothers : ∀ r ∈ others, r.HasShape solved.length (columns + 1) := fun r hr =>
      hshape r (hperm.subset (List.mem_cons_of_mem _ hr))
    obtain ⟨hcount, hcleared⟩ := forall_hasShape_cleared hperm hrows hshape
    obtain ⟨y, hy⟩ : ∃ y, reduceBy (b.getD pivot.index 0) pivot.lower solved = y := ⟨_, rfl⟩
    -- The pivot row is done: its value `y` joins the solved ones, and `x` solves the cleared rows.
    obtain ⟨x, hx, hlength, hsolve⟩ := ih (solved ++ [y]) hcount (by simpa using hcleared) hlater
    have htop : pivot.head * (reduceBy y pivot.rest.tail x / pivot.head) +
        dot pivot.rest.tail x = y := by
      rw [mul_div_cancel₀ _ hhead, reduceBy_eq, sub_add_cancel]
    refine ⟨reduceBy y pivot.rest.tail x / pivot.head :: x, ?_, ?_, ?_⟩
    · rw [forwardFrom]
      simp only [hy, List.map_cons, List.zip_cons_cons, backward, hx]
      rfl
    · rw [List.length_cons, hlength]
    · intro r hr
      rcases List.mem_cons.mp (hperm.symm.subset hr) with rfl | hr
      · rw [hpivot.dot_cons, htop, hy]
      · exact (hothers r hr).dot_eq_of_eliminate hpivot hlength hhead htop
          (hsolve _ (List.mem_map_of_mem hr))

variable {n : ℕ} {a : Matrix (Fin n) (Fin n) ℝ}

lemma threshold_pos (rows : Rows ℝ) : 0 < threshold rows := by
  have hscale : (0 : ℝ) < max rows.maxAbs 1 := lt_max_of_lt_right one_pos
  have hfraction : (0 : ℝ) < 1e-12 := by norm_num
  rw [threshold, maxNum_eq_max]
  exact mul_pos hfraction hscale

lemma factor_ofMatrix (a : Matrix (Fin n) (Fin n) ℝ) :
    factor (Rows.ofMatrix a) =
      (eliminate (threshold (Rows.ofMatrix a)) n
        (List.ofFn fun i : Fin n => ⟨i, [], List.ofFn (a i)⟩)).map Factors.mk := by
  rw [factor, if_pos (Rows.isFinite_ofMatrix a), Rows.length_ofMatrix, Rows.mapIdx_ofMatrix]

lemma forall_hasShape_ofMatrix (a : Matrix (Fin n) (Fin n) ℝ) :
    ∀ r ∈ List.ofFn fun i : Fin n => (⟨i, [], List.ofFn (a i)⟩ : Row ℝ), r.HasShape 0 n := by
  intro r hr
  obtain ⟨i, rfl⟩ := List.mem_ofFn.mp hr
  exact ⟨rfl, List.length_ofFn⟩

lemma backSolve_ofMatrix {f : Factors ℝ} (h : factor (Rows.ofMatrix a) = some f)
    (b : Fin n → ℝ) : ∃ x, backSolve f (List.ofFn b) = List.ofFn x ∧ a *ᵥ x = b := by
  rw [factor_ofMatrix] at h
  obtain ⟨final, hfinal, rfl⟩ := Option.map_eq_some_iff.mp h
  obtain ⟨x, hx, hlength, hsolve⟩ := eliminate_solve (threshold_pos _) (List.ofFn b) []
    List.length_ofFn (forall_hasShape_ofMatrix a) hfinal
  obtain ⟨z, rfl⟩ := exists_eq_ofFn hlength
  refine ⟨z, ?_, ?_⟩
  · rw [backSolve, forward_eq]
    exact hx
  · funext i
    have hrow := hsolve ⟨i, [], List.ofFn (a i)⟩ (List.mem_ofFn.mpr ⟨i, rfl⟩)
    rw [dot_ofFn] at hrow
    rw [mulVec, hrow]
    simp [reduceBy]

/-- Elimination gets through the matrix. -/
def HasFactors (a : Matrix (Fin n) (Fin n) ℝ) : Prop :=
  (factor (Rows.ofMatrix a)).isSome

lemma solve_eq_none_iff (b : List ℝ) : solve (Rows.ofMatrix a) b = none ↔ ¬ HasFactors a := by
  rw [HasFactors, Option.not_isSome_iff_eq_none, solve, Option.map_eq_none_iff]

lemma solve_eq_some {b : Fin n → ℝ} {x : List ℝ}
    (h : solve (Rows.ofMatrix a) (List.ofFn b) = some x) :
    HasFactors a ∧ ∃ z, x = List.ofFn z ∧ a *ᵥ z = b := by
  obtain ⟨f, hf, rfl⟩ := Option.map_eq_some_iff.mp h
  exact ⟨Option.isSome_of_eq_some hf, backSolve_ofMatrix hf b⟩

lemma HasFactors.isUnit (h : HasFactors a) : IsUnit a := by
  obtain ⟨f, hf⟩ := Option.isSome_iff_exists.mp h
  refine mulVec_surjective_iff_isUnit.mp fun b => ?_
  obtain ⟨x, -, hx⟩ := backSolve_ofMatrix hf b
  exact ⟨x, hx⟩

end LU

end Downhill
