import Mathlib.Data.List.GetD
import Downhill.Proofs.SmallPivots

/-!
# Triangular factors

The rows that elimination finishes are the rows of the matrix in another order, each written as the
multiples of the rows finished before it and what was left of it. So the multipliers and the finished
rows are the two triangles of a factorization, with multipliers of magnitude at most one and a
diagonal on which no entry is below the threshold. Where elimination gives up, the matrix makes some
vector almost vanish. Only pivots are ever divided by, so what a division by zero would answer plays
no part.
-/

namespace Downhill
open Matrix
open scoped List

lemma dot_replicate_zero_append (i : ℕ) (u v : List ℝ) :
    dot (List.replicate i 0 ++ u) v = dot u (v.drop i) := by
  induction i generalizing v with
  | zero => simp
  | succ i ih =>
    cases v with
    | nil => simp [dot]
    | cons y v => rw [List.replicate_succ, List.cons_append, dot_cons, zero_mul, zero_add, ih,
        List.drop_succ_cons]

lemma dot_concat (u v : List ℝ) (c : ℝ) : dot (u ++ [c]) v = dot u v + c * v.getD u.length 0 := by
  induction u generalizing v with
  | nil => cases v <;> simp [dot]
  | cons x u ih =>
    cases v with
    | nil => simp [dot]
    | cons y v => simp [dot_cons, ih, add_assoc]

lemma abs_getD_le_one {values : List ℝ} (h : ∀ c ∈ values, |c| ≤ 1) (j : ℕ) :
    |values.getD j 0| ≤ 1 := by
  rw [List.getD_eq_getElem?_getD]
  cases hvalue : values[j]? with
  | none => simp
  | some c => exact h c (List.mem_of_getElem? hvalue)

/-- A list of the first numbers in some order is a permutation of the places. -/
lemma exists_perm_of_perm_range {n : ℕ} {indices : List ℕ} (h : indices ~ List.range n) :
    ∃ σ : Equiv.Perm (Fin n), indices = List.ofFn fun i => (σ i : ℕ) := by
  have hlength : indices.length = n := by rw [h.length_eq, List.length_range]
  have hin : ∀ i : Fin n, i < indices.length := fun i => hlength ▸ i.isLt
  have hnodup : indices.Nodup := h.nodup_iff.mpr List.nodup_range
  have hbound : ∀ i : Fin n, indices.get ⟨i, hin i⟩ < n := fun i =>
    List.mem_range.mp (h.subset (List.get_mem indices _))
  have hinjective : Function.Injective fun i : Fin n =>
      (⟨indices.get ⟨i, hin i⟩, hbound i⟩ : Fin n) := by
    intro i j hij
    exact Fin.ext ((hnodup.getElem_inj_iff).mp (congrArg Fin.val hij))
  refine ⟨.ofBijective _ (Finite.injective_iff_bijective.mp hinjective), ?_⟩
  apply List.ext_getElem
  · simp [hlength]
  · intro i h₁ h₂
    simp

lemma coords_dotProduct {n : ℕ} (u : List ℝ) (x : Fin n → ℝ) :
    coords n u ⬝ᵥ x = dot u (List.ofFn x) := by
  induction n generalizing u with
  | zero => simp [dot]
  | succ n ih =>
    cases u with
    | nil =>
      have hzero : coords (n + 1) [] = 0 := by
        funext i
        simp [coords]
      simp [hzero, dot]
    | cons y u =>
      rw [List.ofFn_succ, dot_cons, ← ih, dotProduct, Fin.sum_univ_succ]
      rfl

namespace LU

/-! ### The finished rows -/

/-- The products of the finished rows with a vector, each with the coordinates that its row reads. -/
noncomputable def upperValues (final : List (Row ℝ)) (x : List ℝ) : List ℝ :=
  final.mapIdx fun i r => dot r.rest (x.drop i)

lemma upperValues_cons (r : Row ℝ) (final : List (Row ℝ)) (y : ℝ) (x : List ℝ) :
    upperValues (r :: final) (y :: x) = dot r.rest (y :: x) :: upperValues final x := by
  simp [upperValues, List.mapIdx_cons]

/-- The row `r` under elimination ends as `f` in place `i` of the rows `final`: it is the sum of
`multipliers` times the rows finished before it and of what is left in `f`. -/
structure Row.EndsAs (t : ℝ) (columns : ℕ) (final : List (Row ℝ)) (i : ℕ) (r f : Row ℝ)
    (multipliers : List ℝ) : Prop where
  index : f.index = r.index
  lower : f.lower = r.lower ++ multipliers
  count : multipliers.length = i
  le_one : ∀ c ∈ multipliers, |c| ≤ 1
  rest : f.rest.length = columns - i
  pivot : t ≤ |f.head|
  dot_eq : ∀ x : List ℝ, x.length = columns →
    dot r.rest x = dot multipliers (upperValues final x) + dot f.rest (x.drop i)

/-- A pivot row is finished as it stands. -/
lemma Row.EndsAs.pivotRow {t : ℝ} {solved columns : ℕ} {pivot : Row ℝ} (later : List (Row ℝ))
    (hshape : pivot.HasShape solved columns) (hpivot : t ≤ |pivot.head|) :
    Row.EndsAs t columns (pivot :: later) 0 pivot pivot [] where
  index := rfl
  lower := (List.append_nil _).symm
  count := rfl
  le_one := by simp
  rest := hshape.rest
  pivot := hpivot
  dot_eq x _ := by simp [dot]

/-- A row whose column is cleared by a pivot row first takes a multiple of that row. -/
lemma Row.EndsAs.of_eliminate {t : ℝ} {solved columns i : ℕ} {pivot r f : Row ℝ}
    {later : List (Row ℝ)} {multipliers : List ℝ} (hpivot : pivot.HasShape solved (columns + 1))
    (hr : r.HasShape solved (columns + 1)) (hhead : pivot.head ≠ 0)
    (hle : |r.head| ≤ |pivot.head|)
    (h : Row.EndsAs t columns later i (pivot.eliminate r) f multipliers) :
    Row.EndsAs t (columns + 1) (pivot :: later) (i + 1) r f
      (r.head / pivot.head :: multipliers) where
  index := h.index
  lower := by
    rw [h.lower]
    exact List.append_assoc ..
  count := congrArg (· + 1) h.count
  le_one := by
    refine List.forall_mem_cons.mpr ⟨?_, h.le_one⟩
    rw [abs_div]
    exact div_le_one_of_le₀ hle (abs_nonneg _)
  rest := by rw [h.rest, Nat.add_sub_add_right]
  pivot := h.pivot
  dot_eq x hx := by
    obtain ⟨y, x, rfl⟩ := List.exists_cons_of_length_eq_add_one hx
    have hlength : x.length = columns := Nat.succ_injective hx
    rw [hr.dot_eliminate hpivot hlength hhead, h.dot_eq x hlength, upperValues_cons, dot_cons,
      List.drop_succ_cons, add_assoc]

/-- Elimination that gets through finishes each row once. -/
lemma eliminate_endsAs {t : ℝ} (ht : 0 < t) {solved columns : ℕ} {rows final : List (Row ℝ)}
    (hrows : rows.length = columns) (hshape : ∀ r ∈ rows, r.HasShape solved columns)
    (h : eliminate t columns rows = some final) :
    final.length = columns ∧ final.map Row.index ~ rows.map Row.index ∧
      ∀ i (hi : i < final.length), ∃ r ∈ rows, ∃ multipliers,
        Row.EndsAs t columns final i r final[i] multipliers := by
  induction columns generalizing rows final solved with
  | zero =>
    obtain rfl := List.length_eq_zero_iff.mp hrows
    cases h
    exact ⟨rfl, .refl _, fun i hi => absurd hi (Nat.not_lt_zero i)⟩
  | succ columns ih =>
    obtain ⟨pivot, others, hperm, hmax, hstep⟩ :=
      eliminate_eq t columns (List.ne_nil_of_length_eq_add_one hrows)
    rw [hstep] at h
    split_ifs at h with hsmall
    obtain ⟨later, hlater, rfl⟩ := Option.map_eq_some_iff.mp h
    have hlarge : t ≤ |pivot.head| := not_lt.mp hsmall
    have hhead : pivot.head ≠ 0 := abs_pos.mp (ht.trans_le hlarge)
    have hpivot := hshape pivot (hperm.subset List.mem_cons_self)
    obtain ⟨hcount, hcleared⟩ := forall_hasShape_cleared hperm hrows hshape
    obtain ⟨hlength, hindices, hends⟩ := ih hcount hcleared hlater
    refine ⟨congrArg (· + 1) hlength, ?_, ?_⟩
    · have hsame : (others.map pivot.eliminate).map Row.index = others.map Row.index := by
        rw [List.map_map]
        rfl
      rw [hsame] at hindices
      exact (hindices.cons pivot.index).trans (hperm.map Row.index)
    · intro i hi
      cases i with
      | zero => exact ⟨pivot, hperm.subset List.mem_cons_self, [], .pivotRow later hpivot hlarge⟩
      | succ i =>
        obtain ⟨r, hr, multipliers, hrow⟩ := hends i (Nat.lt_of_succ_lt_succ hi)
        obtain ⟨s, hs, rfl⟩ := List.mem_map.mp hr
        have hs' : s ∈ rows := hperm.subset (List.mem_cons_of_mem _ hs)
        exact ⟨s, hs', _, hrow.of_eliminate hpivot (hshape s hs') hhead (hmax s hs')⟩

/-! ### The two triangles -/

variable {n : ℕ} {a : Matrix (Fin n) (Fin n) ℝ}

namespace Factors

/-- The unit lower triangle: in each row the multipliers, and a one after them. -/
def lowerTriangle (f : Factors ℝ) (n : ℕ) : Matrix (Fin n) (Fin n) ℝ :=
  .of fun i => coords n ((f.rows.map Row.lower).getD i [] ++ [1])

/-- The upper triangle: in each row the final entries, from the diagonal on. -/
def upperTriangle (f : Factors ℝ) (n : ℕ) : Matrix (Fin n) (Fin n) ℝ :=
  .of fun i => coords n (List.replicate i 0 ++ (f.rows.map Row.rest).getD i [])

variable {f : Factors ℝ} {t : ℝ}

/-- Every row of `a` is finished once, in the order of the indices. -/
structure Finishes (f : Factors ℝ) (a : Matrix (Fin n) (Fin n) ℝ) (t : ℝ) : Prop where
  length : f.rows.length = n
  indices : f.rows.map Row.index ~ List.range n
  endsAs : ∀ i (hi : i < f.rows.length), ∃ k : Fin n,
    Row.EndsAs t n f.rows i ⟨k, [], List.ofFn (a k)⟩ f.rows[i] f.rows[i].lower

/-- Factors with one multiplier in each place below the diagonal and one final entry in each of the
other places, with magnitudes that are bounded as elimination keeps them. -/
structure IsTriangular (f : Factors ℝ) (n : ℕ) (bound : ℝ) : Prop where
  length : f.rows.length = n
  shape : ∀ i (hi : i < f.rows.length), f.rows[i].HasShape i (n - i)
  lower_diagonal : ∀ i, f.lowerTriangle n i i = 1
  lower_above : ∀ i j, i < j → f.lowerTriangle n i j = 0
  lower_le_one : ∀ i j, |f.lowerTriangle n i j| ≤ 1
  upper_below : ∀ i j, j < i → f.upperTriangle n i j = 0
  upper_diagonal : ∀ i, bound ≤ |f.upperTriangle n i i|

lemma lowerTriangle_row (f : Factors ℝ) (i : Fin n) (hi : i < f.rows.length) :
    f.lowerTriangle n i = coords n (f.rows[i.val].lower ++ [1]) := by
  have hrow : (f.rows.map Row.lower).getD i [] = f.rows[i.val].lower := by simp [hi]
  exact congrArg (fun row => coords n (row ++ [1])) hrow

lemma upperTriangle_row (f : Factors ℝ) (i : Fin n) (hi : i < f.rows.length) :
    f.upperTriangle n i = coords n (List.replicate i 0 ++ f.rows[i.val].rest) := by
  have hrow : (f.rows.map Row.rest).getD i [] = f.rows[i.val].rest := by simp [hi]
  exact congrArg (fun row => coords n (List.replicate i 0 ++ row)) hrow

lemma upperTriangle_mulVec_apply (i : Fin n) (hi : i < f.rows.length) (x : Fin n → ℝ) :
    (f.upperTriangle n *ᵥ x) i = dot f.rows[i.val].rest ((List.ofFn x).drop i) := by
  rw [mulVec, upperTriangle_row f i hi, coords_dotProduct, dot_replicate_zero_append]

lemma ofFn_upperTriangle_mulVec (hlength : f.rows.length = n) (x : Fin n → ℝ) :
    List.ofFn (f.upperTriangle n *ᵥ x) = upperValues f.rows (List.ofFn x) := by
  apply List.ext_getElem
  · simp [upperValues, hlength]
  · intro i h₁ h₂
    have hi : i < n := by simpa using h₁
    rw [List.getElem_ofFn, upperTriangle_mulVec_apply ⟨i, hi⟩ (hlength ▸ hi)]
    simp [upperValues]

lemma lowerTriangle_mulVec (i : Fin n) (hi : i < f.rows.length)
    (hcount : f.rows[i.val].lower.length = i) (y : Fin n → ℝ) :
    (f.lowerTriangle n *ᵥ y) i = dot f.rows[i.val].lower (List.ofFn y) + y i := by
  rw [mulVec, lowerTriangle_row f i hi, coords_dotProduct, dot_concat, hcount]
  simp

namespace Finishes

lemma isTriangular (h : f.Finishes a t) : f.IsTriangular n t := by
  have hshape : ∀ i (hi : i < f.rows.length), f.rows[i].HasShape i (n - i) := by
    intro i hi
    obtain ⟨k, hends⟩ := h.endsAs i hi
    exact ⟨hends.count, hends.rest⟩
  have hin : ∀ i : Fin n, i < f.rows.length := fun i => h.length ▸ i.isLt
  refine ⟨h.length, hshape, fun i => ?_, fun i j hij => ?_, fun i j => ?_, fun i j hij => ?_,
    fun i => ?_⟩
  · have hcount := (hshape i (hin i)).lower
    rw [lowerTriangle_row f i (hin i), coords, List.getD_append_right _ _ _ _ hcount.le, hcount,
      Nat.sub_self, List.getD_cons_zero]
  · have hcount := (hshape i (hin i)).lower
    rw [lowerTriangle_row f i (hin i), coords, List.getD_eq_default]
    rw [List.length_append, hcount]
    exact hij
  · obtain ⟨k, hends⟩ := h.endsAs i (hin i)
    rw [lowerTriangle_row f i (hin i), coords]
    refine abs_getD_le_one (List.forall_mem_append.mpr ⟨hends.le_one, ?_⟩) j
    simp
  · rw [upperTriangle_row f i (hin i), coords, List.getD_append _ _ _ _ (by simpa using hij)]
    simp
  · obtain ⟨k, hends⟩ := h.endsAs i (hin i)
    rw [upperTriangle_row f i (hin i), coords, List.getD_append_right _ _ _ _ (by simp),
      List.length_replicate, Nat.sub_self, ← List.headD_eq_getD]
    exact hends.pivot

lemma exists_perm_mul_eq (h : f.Finishes a t) :
    ∃ σ : Equiv.Perm (Fin n), f.rows.map Row.index = List.ofFn (fun i => (σ i : ℕ)) ∧
      a.submatrix σ id = f.lowerTriangle n * f.upperTriangle n := by
  obtain ⟨σ, hσ⟩ := exists_perm_of_perm_range h.indices
  refine ⟨σ, hσ, ?_⟩
  -- Column `j` of both sides is what they make of the unit vector `x`, which a finished row reads.
  apply ext_of_mulVec_single
  intro j
  obtain ⟨x, hx⟩ : ∃ x : Fin n → ℝ, Pi.single j 1 = x := ⟨_, rfl⟩
  rw [hx, ← mulVec_mulVec]
  funext i
  have hi : i < f.rows.length := h.length ▸ i.isLt
  obtain ⟨k, hends⟩ := h.endsAs i hi
  have hplace : σ i = k := by
    have hindex : f.rows[i.val].index = σ i := by
      simpa [hi] using congrArg (·[i.val]?) hσ
    exact Fin.ext (hindex.symm.trans hends.index)
  rw [lowerTriangle_mulVec i hi hends.count, ofFn_upperTriangle_mulVec h.length,
    upperTriangle_mulVec_apply i hi, ← hends.dot_eq _ List.length_ofFn, dot_ofFn, ← hplace]
  rfl

end Finishes

end Factors

lemma factor_finishes {f : Factors ℝ} (h : factor (Rows.ofMatrix a) = some f) :
    f.Finishes a (threshold (Rows.ofMatrix a)) := by
  rw [factor_ofMatrix] at h
  obtain ⟨final, hfinal, rfl⟩ := Option.map_eq_some_iff.mp h
  obtain ⟨hlength, hindices, hends⟩ := eliminate_endsAs (threshold_pos _) List.length_ofFn
    (forall_hasShape_ofMatrix a) hfinal
  have hrange : (List.ofFn fun i : Fin n => (⟨i, [], List.ofFn (a i)⟩ : Row ℝ)).map Row.index =
      List.range n := by
    apply List.ext_getElem
    · simp
    · intro i h₁ h₂
      simp
  refine ⟨hlength, hrange ▸ hindices, fun i hi => ?_⟩
  obtain ⟨r, hr, multipliers, hrow⟩ := hends i hi
  obtain ⟨k, rfl⟩ := List.mem_ofFn.mp hr
  have hlower : final[i].lower = multipliers := hrow.lower
  exact ⟨k, hlower ▸ hrow⟩

/-- The magnitude below which a pivot counts as zero. -/
noncomputable def smallPivot (a : Matrix (Fin n) (Fin n) ℝ) : ℝ :=
  1e-12 * max 1 (⨆ i, ⨆ j, |a i j|)

lemma threshold_ofMatrix (a : Matrix (Fin n) (Fin n) ℝ) :
    threshold (Rows.ofMatrix a) = smallPivot a := by
  have hscale : max (Rows.ofMatrix a).maxAbs 1 = max 1 (⨆ i, ⨆ j, |a i j|) := by
    refine eq_of_forall_ge_iff fun c => ?_
    rw [max_comm, max_le_iff, max_le_iff, Rows.maxAbs_ofMatrix_le_iff]
    refine and_congr_right fun hc => ⟨fun h => ?_, fun h => ⟨?_, fun i j => ?_⟩⟩
    · exact Real.iSup_le (fun i => Real.iSup_le (h.2 i) h.1) h.1
    · exact zero_le_one.trans hc
    · have hrow := le_ciSup (Set.finite_range fun j => |a i j|).bddAbove j
      have hrows := le_ciSup (Set.finite_range fun i => ⨆ j, |a i j|).bddAbove i
      exact (hrow.trans hrows).trans h
  rw [threshold, maxNum_eq_max, hscale, smallPivot]

lemma exists_backSolve_iff {f : Factors ℝ} (h : factor (Rows.ofMatrix a) = some f) (b : Fin n → ℝ) :
    ∃ x : Fin n → ℝ, backSolve f (List.ofFn b) = List.ofFn x ∧ ∀ z, a *ᵥ z = b ↔ z = x := by
  obtain ⟨x, hx, hsolves⟩ := backSolve_ofMatrix h b
  have hunit : IsUnit a := HasFactors.isUnit (Option.isSome_of_eq_some h)
  refine ⟨x, hx, fun z => ⟨fun hz => ?_, fun hz => hz ▸ hsolves⟩⟩
  exact mulVec_injective_of_isUnit hunit (hz.trans hsolves.symm)

/-- A matrix on which elimination gives up shrinks some vector below the share of the smallest
pivot. -/
lemma exists_shrunk (h : factor (Rows.ofMatrix a) = none) :
    ∃ x : Fin n → ℝ, x ≠ 0 ∧ (⨆ i, |(a *ᵥ x) i|) < smallPivot a * ⨆ i, |x i| := by
  have hfactors : ¬ HasFactors a := by
    rw [HasFactors, h]
    exact Bool.false_ne_true
  obtain ⟨x, ⟨i, hi⟩, hx⟩ := exists_small_mulVec hfactors
  rw [threshold_ofMatrix] at hx
  refine ⟨x, fun hzero => ?_, ?_⟩
  · rw [hzero] at hi
    exact zero_ne_one hi
  · have : Nonempty (Fin n) := ⟨i⟩
    obtain ⟨j, hj⟩ := exists_eq_ciSup_of_finite (f := fun j => |(a *ᵥ x) j|)
    have hone : 1 ≤ ⨆ i, |x i| := by
      have hentry := le_ciSup (Set.finite_range fun i => |x i|).bddAbove i
      rwa [hi, abs_one] at hentry
    calc ⨆ i, |(a *ᵥ x) i| = |(a *ᵥ x) j| := hj.symm
      _ < smallPivot a := hx j
      _ = smallPivot a * 1 := (mul_one _).symm
      _ ≤ smallPivot a * ⨆ i, |x i| :=
        mul_le_mul_of_nonneg_left hone ((abs_nonneg _).trans (hx j).le)

lemma factor_eq_none_of_det_eq_zero (h : a.det = 0) : factor (Rows.ofMatrix a) = none := by
  by_contra hsome
  have hfactors : HasFactors a := Option.isSome_iff_ne_none.mpr hsome
  exact ((isUnit_iff_isUnit_det a).mp hfactors.isUnit).ne_zero h

/-! ### Divisions -/

/-- Exact arithmetic in which a division by zero answers what `junk` says. -/
@[reducible]
noncomputable def arithmeticWithJunk (junk : ℝ → ℝ) : Arithmetic ℝ :=
  { realArithmetic with div := fun x y => if y = 0 then junk x else x / y }

variable (junk : ℝ → ℝ)

lemma junk_eliminate_row {pivot : Row ℝ} (hhead : pivot.head ≠ 0) (r : Row ℝ) :
    @Row.eliminate ℝ (arithmeticWithJunk junk) pivot r = pivot.eliminate r := by
  have hfactor : (if pivot.head = 0 then junk r.head else r.head / pivot.head) =
      r.head / pivot.head := if_neg hhead
  have hunfold : @Row.eliminate ℝ (arithmeticWithJunk junk) pivot r =
      let factor := if pivot.head = 0 then junk r.head else r.head / pivot.head
      ⟨r.index, r.lower ++ [factor],
        List.zipWith (fun x y => x - factor * y) r.rest.tail pivot.rest.tail⟩ := rfl
  rw [hunfold, hfactor]
  rfl

lemma junk_pivotPlace (rows : List (Row ℝ)) (i : ℕ) (best : ℕ × ℝ) :
    @pivotPlace ℝ (arithmeticWithJunk junk) rows i best = pivotPlace rows i best := by
  induction rows generalizing i best with
  | nil => rfl
  | cons r rows ih => exact ih _ _

lemma junk_choosePivot (top : Row ℝ) (others : List (Row ℝ)) :
    @choosePivot ℝ (arithmeticWithJunk junk) top others = choosePivot top others := by
  unfold choosePivot
  rw [junk_pivotPlace]
  rfl

lemma junk_eliminate {t : ℝ} (ht : 0 < t) (columns : ℕ) (rows : List (Row ℝ)) :
    @eliminate ℝ (arithmeticWithJunk junk) t columns rows = eliminate t columns rows := by
  induction columns generalizing rows with
  | zero => rfl
  | succ columns ih =>
    cases rows with
    | nil => rfl
    | cons top others =>
      obtain ⟨pivot, rest, hchoice, -, -⟩ := choosePivot_eq top others
      have hjunk := @eliminate_cons ℝ (arithmeticWithJunk junk) t columns top others
      have hreal := eliminate_cons t columns top others
      rw [junk_choosePivot, hchoice] at hjunk
      rw [hchoice] at hreal
      refine hjunk.trans (.trans ?_ hreal.symm)
      dsimp only
      by_cases hsmall : |pivot.head| < t
      · rw [if_pos hsmall, if_pos hsmall]
      · -- Only a pivot that is large enough comes to be divided by.
        have hhead : pivot.head ≠ 0 := abs_pos.mp (ht.trans_le (not_lt.mp hsmall))
        have hcleared : rest.map (@Row.eliminate ℝ (arithmeticWithJunk junk) pivot) =
            rest.map pivot.eliminate :=
          List.map_congr_left fun r _ => junk_eliminate_row junk hhead r
        rw [if_neg hsmall, if_neg hsmall, hcleared, ih]

lemma junk_factor (rows : Rows ℝ) :
    @factor ℝ (arithmeticWithJunk junk) rows = factor rows := by
  have hunfold : @factor ℝ (arithmeticWithJunk junk) rows =
      if rows.isFinite then
        (@eliminate ℝ (arithmeticWithJunk junk) (threshold rows) rows.length
          (rows.mapIdx fun i row => ⟨i, [], row⟩)).map .mk
      else none := rfl
  rw [hunfold, junk_eliminate junk (threshold_pos rows)]
  rfl

lemma junk_forward (b : List ℝ) (rows : List (Row ℝ)) (solved : List ℝ) :
    @forward ℝ (arithmeticWithJunk junk) b rows solved = forward b rows solved := by
  induction rows generalizing solved with
  | nil => rfl
  | cons r rows ih => exact ih _

lemma junk_backward {rows : List (List ℝ × ℝ)} (h : ∀ row ∈ rows, row.1.headD 0 ≠ 0) :
    @backward ℝ (arithmeticWithJunk junk) rows = backward rows := by
  induction rows with
  | nil => rfl
  | cons row rows ih =>
    obtain ⟨hrow, hrows⟩ := List.forall_mem_cons.mp h
    obtain ⟨upper, y⟩ := row
    have hunfold : @backward ℝ (arithmeticWithJunk junk) ((upper, y) :: rows) =
        let later := @backward ℝ (arithmeticWithJunk junk) rows
        (if upper.headD 0 = 0 then junk (reduceBy y upper.tail later)
          else reduceBy y upper.tail later / upper.headD 0) :: later := rfl
    rw [hunfold, ih hrows, backward]
    exact congrArg (· :: backward rows) (if_neg hrow)

lemma junk_backSolve {f : Factors ℝ} (h : factor (Rows.ofMatrix a) = some f) (b : List ℝ) :
    @backSolve ℝ (arithmeticWithJunk junk) f b = backSolve f b := by
  have hheads : ∀ row ∈ (f.rows.map Row.rest).zip (forward b f.rows []), row.1.headD 0 ≠ 0 := by
    rintro ⟨upper, y⟩ hrow
    obtain ⟨r, hr, rfl⟩ := List.mem_map.mp (List.of_mem_zip hrow).1
    obtain ⟨i, hi, rfl⟩ := List.mem_iff_getElem.mp hr
    obtain ⟨k, hends⟩ := (factor_finishes h).endsAs i hi
    exact abs_pos.mp ((threshold_pos _).trans_le hends.pivot)
  unfold backSolve
  rw [junk_forward, junk_backward junk hheads]

/-- Elimination either takes a matrix apart into two triangles, from which every system is solved, or
it finds that the matrix almost annihilates a vector. It never looks at a quotient by zero. -/
theorem elimination_factors_or_annihilates {n : ℕ} (a : Matrix (Fin n) (Fin n) ℝ) :
    (∀ f, factor (Rows.ofMatrix a) = some f →
      (∃ σ : Equiv.Perm (Fin n), f.rows.map Row.index = List.ofFn (fun i => (σ i : ℕ)) ∧
        a.submatrix σ id = f.lowerTriangle n * f.upperTriangle n) ∧
      f.IsTriangular n (smallPivot a) ∧
      ∀ b : Fin n → ℝ, ∃ x : Fin n → ℝ, backSolve f (List.ofFn b) = List.ofFn x ∧
        ∀ z, a *ᵥ z = b ↔ z = x) ∧
    (factor (Rows.ofMatrix a) = none →
      ∃ x : Fin n → ℝ, x ≠ 0 ∧ (⨆ i, |(a *ᵥ x) i|) < smallPivot a * ⨆ i, |x i|) ∧
    (a.det = 0 → factor (Rows.ofMatrix a) = none) ∧
    ∀ junk : ℝ → ℝ,
      @factor ℝ (arithmeticWithJunk junk) (Rows.ofMatrix a) = factor (Rows.ofMatrix a) ∧
      ∀ f, factor (Rows.ofMatrix a) = some f → ∀ b,
        @backSolve ℝ (arithmeticWithJunk junk) f b = backSolve f b := by
  refine ⟨fun f hf => ?_, exists_shrunk, factor_eq_none_of_det_eq_zero, fun junk => ?_⟩
  · have hfinishes := factor_finishes hf
    rw [threshold_ofMatrix] at hfinishes
    exact ⟨hfinishes.exists_perm_mul_eq, hfinishes.isTriangular, exists_backSolve_iff hf⟩
  · exact ⟨junk_factor junk _, fun f hf b => junk_backSolve junk hf b⟩

/-- The matrix that exchanges two coordinates. Its first row cannot be the first pivot. -/
def exchangeMatrix : Matrix (Fin 2) (Fin 2) ℝ :=
  !![0, 1; 1, 0]

lemma exchangeMatrix_hasFactors : HasFactors exchangeMatrix := by
  have hentries : ∀ i j, |exchangeMatrix i j| ≤ 1 := by
    intro i j
    fin_cases i <;> fin_cases j <;> simp [exchangeMatrix]
  have hthreshold : threshold (Rows.ofMatrix exchangeMatrix) ≤ 1e-12 := by
    simpa using threshold_le le_rfl hentries
  have hsquare := pow_le_pow_left₀ (threshold_pos _).le hthreshold 2
  have hlength : ∀ x : Fin 2 → ℝ,
      (1 : ℝ) ^ 2 * (x ⬝ᵥ x) ≤ exchangeMatrix *ᵥ x ⬝ᵥ exchangeMatrix *ᵥ x := by
    intro x
    simp [exchangeMatrix, dotProduct, Fin.sum_univ_two, add_comm]
  refine hasFactors_of_stretch hlength ?_
  norm_num at hsquare ⊢
  linarith

theorem exchange_solves_and_zero_annihilates :
    (∃ f, factor (Rows.ofMatrix exchangeMatrix) = some f ∧
      (∃ σ : Equiv.Perm (Fin 2),
        exchangeMatrix.submatrix σ id = f.lowerTriangle 2 * f.upperTriangle 2) ∧
      backSolve f (List.ofFn ![5, 7]) = List.ofFn ![7, 5]) ∧
    factor (Rows.ofMatrix (0 : Matrix (Fin 2) (Fin 2) ℝ)) = none ∧
    ∃ x : Fin 2 → ℝ, x ≠ 0 ∧
      (⨆ i, |((0 : Matrix (Fin 2) (Fin 2) ℝ) *ᵥ x) i|) < 1e-12 * ⨆ i, |x i| := by
  obtain ⟨hfactors, -⟩ := elimination_factors_or_annihilates exchangeMatrix
  obtain ⟨-, hannihilates, hsingular, -⟩ :=
    elimination_factors_or_annihilates (0 : Matrix (Fin 2) (Fin 2) ℝ)
  obtain ⟨f, hf⟩ := Option.isSome_iff_exists.mp exchangeMatrix_hasFactors
  obtain ⟨⟨σ, -, hproduct⟩, -, hsolve⟩ := hfactors f hf
  obtain ⟨x, hx, hunique⟩ := hsolve ![5, 7]
  have hsolution : exchangeMatrix *ᵥ ![7, 5] = ![5, 7] := by
    funext i
    fin_cases i <;> simp [exchangeMatrix, mulVec, dotProduct, Fin.sum_univ_two]
  have hnone := hsingular det_zero
  have hbound : smallPivot (0 : Matrix (Fin 2) (Fin 2) ℝ) = 1e-12 := by simp [smallPivot]
  obtain ⟨y, hy, hsmall⟩ := hannihilates hnone
  rw [hbound] at hsmall
  refine ⟨⟨f, hf, ⟨σ, hproduct⟩, ?_⟩, hnone, y, hy, hsmall⟩
  rw [hx, (hunique _).mp hsolution]

end LU

end Downhill
