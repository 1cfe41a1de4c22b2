import Mathlib.Analysis.SpecialFunctions.Log.Basic
import Mathlib.Analysis.SpecialFunctions.Trigonometric.Inverse
import Mathlib.LinearAlgebra.Matrix.DotProduct
import Downhill.Vector

/-!
# Vectors over the real numbers

The algorithms over exact arithmetic: `realArithmetic` gives every operation its meaning on the real
numbers, and the list operations of the library become the operations of `Fin n → ℝ`.
-/

namespace Downhill
open Matrix

/-- Exact arithmetic, on a machine without bounds on its memory. The gap after one is that of double
precision; no number stands above all others, and zero takes the place of one. -/
noncomputable instance realArithmetic : Arithmetic ℝ where
  beq x y := decide (x = y)
  decidableLT := inferInstance
  decidableLE := inferInstance
  abs x := |x|
  sqrt := Real.sqrt
  exp := Real.exp
  log := Real.log
  sin := Real.sin
  cos := Real.cos
  acos := Real.arccos
  pi := Real.pi
  thirdTurn := 2 * Real.pi / 3
  isFinite _ := true
  infinity := 0
  epsilon := 1 / 2 ^ 52
  width := none

variable {n : ℕ}

/-- The coordinates of a vector of `n` numbers. -/
def coords (n : ℕ) (v : List ℝ) : Fin n → ℝ :=
  fun i => v.getD i 0

@[simp] lemma coords_ofFn (x : Fin n → ℝ) : coords n (List.ofFn x) = x := by
  funext i
  simp [coords]

lemma ofFn_coords {v : List ℝ} (h : v.length = n) : List.ofFn (coords n v) = v := by
  subst h
  apply List.ext_getElem
  · simp
  · intro i h₁ h₂
    simp [coords, h₂]

/-- A vector of `n` numbers is given by its coordinates. -/
lemma exists_eq_ofFn {v : List ℝ} (h : v.length = n) : ∃ x : Fin n → ℝ, v = List.ofFn x :=
  ⟨coords n v, (ofFn_coords h).symm⟩

lemma zipWith_ofFn {α β γ : Type} (f : α → β → γ) (x : Fin n → α) (y : Fin n → β) :
    List.zipWith f (List.ofFn x) (List.ofFn y) = List.ofFn fun i => f (x i) (y i) := by
  apply List.ext_getElem
  · simp
  · intro i h₁ h₂
    simp

lemma foldl_dot_ofFn (x y : Fin n → ℝ) (a : ℝ) :
    ((List.ofFn x).zip (List.ofFn y)).foldl (fun s p => s + p.1 * p.2) a = a + x ⬝ᵥ y := by
  induction n generalizing a with
  | zero => simp
  | succ n ih =>
    rw [List.ofFn_succ, List.ofFn_succ, List.zip_cons_cons, List.foldl_cons, ih, add_assoc]
    simp only [dotProduct, Fin.sum_univ_succ]

lemma dot_ofFn (x y : Fin n → ℝ) : dot (List.ofFn x) (List.ofFn y) = x ⬝ᵥ y :=
  (foldl_dot_ofFn x y 0).trans (zero_add _)

lemma dot_eq_coords {u v : List ℝ} (hu : u.length = n) (hv : v.length = n) :
    dot u v = coords n u ⬝ᵥ coords n v := by
  obtain ⟨x, rfl⟩ := exists_eq_ofFn hu
  obtain ⟨z, rfl⟩ := exists_eq_ofFn hv
  rw [dot_ofFn, coords_ofFn, coords_ofFn]

lemma along_ofFn (w : Fin n → ℝ) (alpha : ℝ) (p : Fin n → ℝ) :
    along (List.ofFn w) alpha (List.ofFn p) = List.ofFn (w + alpha • p) :=
  zipWith_ofFn _ w p

lemma scale_ofFn (alpha : ℝ) (v : Fin n → ℝ) :
    scale alpha (List.ofFn v) = List.ofFn (alpha • v) :=
  List.map_ofFn

lemma neg_ofFn (v : Fin n → ℝ) : neg (List.ofFn v) = List.ofFn (-v) :=
  List.map_ofFn

lemma length_sub {u v : List ℝ} (hu : u.length = n) (hv : v.length = n) :
    (sub u v).length = n := by
  rw [sub, List.length_zipWith, hu, hv, Nat.min_self]

lemma norm_nonneg (v : List ℝ) : 0 ≤ norm v :=
  Real.sqrt_nonneg _

lemma dotProduct_self_nonneg (v : Fin n → ℝ) : 0 ≤ v ⬝ᵥ v :=
  Finset.sum_nonneg fun i _ => mul_self_nonneg (v i)

lemma norm_sq (v : List ℝ) : norm v ^ 2 = dot v v := by
  obtain ⟨n, hn⟩ : ∃ n, v.length = n := ⟨_, rfl⟩
  obtain ⟨x, rfl⟩ := exists_eq_ofFn hn
  rw [norm, dot_ofFn]
  exact Real.sq_sqrt (dotProduct_self_nonneg x)

lemma along_neg (w : List ℝ) (alpha : ℝ) (p : List ℝ) :
    along w alpha (neg p) = sub w (scale alpha p) := by
  simp only [along, sub, neg, scale, List.zipWith_map_right]
  congr 1
  funext wi pi
  ring

lemma dot_neg_self (v : List ℝ) : dot v (neg v) = -norm v ^ 2 := by
  obtain ⟨n, hn⟩ : ∃ n, v.length = n := ⟨_, rfl⟩
  obtain ⟨x, rfl⟩ := exists_eq_ofFn hn
  rw [norm_sq, neg_ofFn, dot_ofFn, dot_ofFn, dotProduct_neg]

/-- A list of numbers that are all zero has no coordinate but zero. -/
lemma coords_eq_zero_iff {v : List ℝ} (h : v.length = n) : coords n v = 0 ↔ ∀ x ∈ v, x = 0 := by
  obtain ⟨x, rfl⟩ := exists_eq_ofFn h
  simp [funext_iff]

lemma exists_mem_ofFn_ne_zero_iff {x : Fin n → ℝ} : (∃ a ∈ List.ofFn x, a ≠ 0) ↔ x ≠ 0 := by
  simp [funext_iff]

lemma dotProduct_self_pos {v : Fin n → ℝ} (h : v ≠ 0) : 0 < v ⬝ᵥ v :=
  lt_of_le_of_ne (dotProduct_self_nonneg v) fun hzero => h (dotProduct_self_eq_zero.mp hzero.symm)

lemma mul_self_le_dotProduct_self (v : Fin n → ℝ) (i : Fin n) : v i * v i ≤ v ⬝ᵥ v :=
  Finset.single_le_sum (f := fun i => v i * v i) (fun i _ => mul_self_nonneg (v i))
    (Finset.mem_univ i)

lemma abs_mul_le_dotProduct_self (v : Fin n → ℝ) (i j : Fin n) : |v i * v j| ≤ v ⬝ᵥ v := by
  have hi := mul_self_le_dotProduct_self v i
  have hj := mul_self_le_dotProduct_self v j
  rw [abs_le]
  constructor
  · linarith [mul_self_nonneg (v i + v j)]
  · linarith [mul_self_nonneg (v i - v j)]

/-- The inequality of Cauchy and Schwarz. -/
lemma dotProduct_sq_le (u v : Fin n → ℝ) : (u ⬝ᵥ v) ^ 2 ≤ (u ⬝ᵥ u) * (v ⬝ᵥ v) := by
  simpa only [dotProduct, sq] using Finset.sum_mul_sq_le_sq_mul_sq Finset.univ u v

lemma dotProduct_self_add_le (u v : Fin n → ℝ) :
    (u + v) ⬝ᵥ (u + v) ≤ 2 * (u ⬝ᵥ u) + 2 * (v ⬝ᵥ v) := by
  have hdifference := dotProduct_self_nonneg (u - v)
  simp only [sub_dotProduct, dotProduct_sub, add_dotProduct, dotProduct_add,
    dotProduct_comm v u] at hdifference ⊢
  linarith

end Downhill
