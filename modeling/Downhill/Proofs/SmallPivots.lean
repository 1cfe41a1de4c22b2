import Downhill.Proofs.Elimination

/-!
# Where elimination gives up

Elimination ends without a result when every remaining row has a leading entry below the threshold.
The finished rows then fix a vector that all of them send to zero, and each remaining row sends it
to its leading entry. So the matrix makes a vector with a coordinate one almost vanish, and a matrix
that leaves every vector long enough has factors.
-/

namespace Downhill
open Matrix
open scoped List

namespace Rows

variable {m n : ℕ}

lemma foldl_foldl_max_le_iff (rows : Rows ℝ) (a c : ℝ) :
    rows.foldl (fun a row => row.foldl (fun a x => max a |x|) a) a ≤ c ↔
      a ≤ c ∧ ∀ row ∈ rows, ∀ x ∈ row, |x| ≤ c := by
  induction rows generalizing a with
  | nil => simp
  | cons row rows ih =>
    rw [List.foldl_cons, ih, foldl_max_le_iff, List.forall_mem_cons, and_assoc]

lemma maxAbs_ofMatrix_le_iff (a : Matrix (Fin m) (Fin n) ℝ) (c : ℝ) :
    (ofMatrix a).maxAbs ≤ c ↔ 0 ≤ c ∧ ∀ i j, |a i j| ≤ c := by
  have habs : ∀ x : ℝ, Arithmetic.abs x = |x| := fun _ => rfl
  simp only [maxAbs, maxNum_eq_max, habs]
  rw [foldl_foldl_max_le_iff]
  simp only [ofMatrix, List.forall_mem_ofFn_iff]

end Rows

namespace LU

/-- Elimination that gives up on rows has seen them make a vector almost vanish. -/
lemma exists_small_of_eliminate_eq_none {t : ℝ} (ht : 0 < t) {solved columns : ℕ}
    {rows : List (Row ℝ)} (hrows : rows.length = columns)
    (hshape : ∀ r ∈ rows, r.HasShape solved columns) (h : eliminate t columns rows = none) :
    ∃ x : List ℝ, x.length = columns ∧ 1 ∈ x ∧ ∀ r ∈ rows, |dot r.rest x| < t := by
  induction columns generalizing rows solved with
  | zero => cases h
  | succ columns ih =>
    obtain ⟨pivot, others, hperm, hmax, hstep⟩ :=
      eliminate_eq t columns (List.ne_nil_of_length_eq_add_one hrows)
    rw [hstep] at h
    split_ifs at h with hsmall
    · -- All leading entries are small, and the first coordinate alone picks them out.
      refine ⟨1 :: List.ofFn (0 : Fin columns → ℝ), by simp, List.mem_cons_self, ?_⟩
      intro r hr
      obtain ⟨u, hu⟩ := exists_eq_ofFn (hshape r hr).tail_length
      have hhead : dot r.rest (1 :: List.ofFn (0 : Fin columns → ℝ)) = r.head := by
        rw [(hshape r hr).dot_cons, hu, dot_ofFn, dotProduct_zero, mul_one, add_zero]
      rw [hhead]
      exact (hmax r hr).trans_lt hsmall
    · have hhead : pivot.head ≠ 0 := abs_pos.mp (ht.trans_le (not_lt.mp hsmall))
      have hpivot := hshape pivot (hperm.subset List.mem_cons_self)
      obtain ⟨hcount, hcleared⟩ := forall_hasShape_cleared hperm hrows hshape
      obtain ⟨x, hlength, hone, hx⟩ := ih hcount hcleared (Option.map_eq_none_iff.mp h)
      -- The new coordinate makes the pivot row vanish, so the others stay as small as they are.
      obtain ⟨y, hy⟩ : ∃ y, dot pivot.rest (y :: x) = 0 := by
        refine ⟨-dot pivot.rest.tail x / pivot.head, ?_⟩
        rw [hpivot.dot_cons, mul_div_cancel₀ _ hhead, neg_add_cancel]
      refine ⟨y :: x, by rw [List.length_cons, hlength], List.mem_cons_of_mem _ hone, ?_⟩
      intro r hr
      rcases List.mem_cons.mp (hperm.symm.subset hr) with rfl | hr
      · rw [hy, abs_zero]
        exact ht
      · have hr' := hshape r (hperm.subset (List.mem_cons_of_mem _ hr))
        rw [hr'.dot_eliminate hpivot hlength hhead, hy, mul_zero, zero_add]
        exact hx _ (List.mem_map_of_mem hr)

variable {n : ℕ} {a : Matrix (Fin n) (Fin n) ℝ}

lemma exists_small_mulVec (h : ¬ HasFactors a) :
    ∃ x : Fin n → ℝ, (∃ i, x i = 1) ∧ ∀ i, |(a *ᵥ x) i| < threshold (Rows.ofMatrix a) := by
  rw [HasFactors, Option.not_isSome_iff_eq_none, factor_ofMatrix, Option.map_eq_none_iff] at h
  obtain ⟨x, hlength, hone, hx⟩ := exists_small_of_eliminate_eq_none (threshold_pos _)
    List.length_ofFn (forall_hasShape_ofMatrix a) h
  obtain ⟨z, rfl⟩ := exists_eq_ofFn hlength
  refine ⟨z, List.mem_ofFn.mp hone, fun i => ?_⟩
  have hrow := hx _ (List.mem_ofFn.mpr ⟨i, rfl⟩)
  rwa [dot_ofFn] at hrow

lemma threshold_le {c : ℝ} (hc : 1 ≤ c) (ha : ∀ i j, |a i j| ≤ c) :
    threshold (Rows.ofMatrix a) ≤ 1e-12 * c := by
  have hmax : (Rows.ofMatrix a).maxAbs ≤ c :=
    (Rows.maxAbs_ofMatrix_le_iff a c).mpr ⟨zero_le_one.trans hc, ha⟩
  have hfraction : (0 : ℝ) ≤ 1e-12 := by norm_num
  rw [threshold, maxNum_eq_max]
  exact mul_le_mul_of_nonneg_left (max_le hmax hc) hfraction

/-- A matrix has factors if it leaves every vector at least `tau` times as long and `tau` makes up
for the square root of the dimension. -/
lemma hasFactors_of_stretch {tau : ℝ}
    (hstretch : ∀ x : Fin n → ℝ, tau ^ 2 * (x ⬝ᵥ x) ≤ a *ᵥ x ⬝ᵥ a *ᵥ x)
    (htau : n * threshold (Rows.ofMatrix a) ^ 2 ≤ tau ^ 2) : HasFactors a := by
  by_contra h
  obtain ⟨x, ⟨i, hi⟩, hx⟩ := exists_small_mulVec h
  have hlong : 1 ≤ x ⬝ᵥ x := by
    have hterm := mul_self_le_dotProduct_self x i
    rwa [hi, one_mul] at hterm
  have hshort : a *ᵥ x ⬝ᵥ a *ᵥ x < n * threshold (Rows.ofMatrix a) ^ 2 := by
    have hsum : ∑ j, (a *ᵥ x) j * (a *ᵥ x) j < ∑ _j : Fin n, threshold (Rows.ofMatrix a) ^ 2 := by
      refine Finset.sum_lt_sum_of_nonempty ⟨i, Finset.mem_univ i⟩ fun j _ => ?_
      rw [← pow_two]
      exact sq_lt_sq' (abs_lt.mp (hx j)).1 (abs_lt.mp (hx j)).2
    simpa [dotProduct] using hsum
  have hsq : tau ^ 2 * 1 ≤ tau ^ 2 * (x ⬝ᵥ x) := mul_le_mul_of_nonneg_left hlong (sq_nonneg tau)
  have := hstretch x
  linarith

end LU

end Downhill
