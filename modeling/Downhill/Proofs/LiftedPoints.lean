import Mathlib.Algebra.BigOperators.Fin
import Downhill.Proofs.RealMatrices
import Downhill.Problem.Classifier

/-!
# Labelled points over the real numbers

A labelled point is a vector with a constant last coordinate and a label. The classifiers run
through the points and add up numbers, multiples of the vectors, and multiples of their outer
products; over exact arithmetic each of these passes is a sum.
-/

namespace Downhill
open Matrix

namespace DataPoint

/-- The point with the constant coordinate that belongs to the offset. -/
def lifted (p : DataPoint ℝ) : Fin 3 → ℝ :=
  ![p.x1, p.x2, 1]

/-- The label as zero or one. -/
def label (p : DataPoint ℝ) : ℝ :=
  p.y.toNat

/-- The label as minus one or one. -/
noncomputable def sign (p : DataPoint ℝ) : ℝ :=
  2.0 * p.label - 1

/-- The sample with the sign as its label. -/
noncomputable def signedSample (p : DataPoint ℝ) : Sample ℝ :=
  ⟨List.ofFn p.lifted, p.sign⟩

/-- How far a point lies on its own side of the line with the weights `w`. -/
noncomputable def margin (p : DataPoint ℝ) (w : Fin 3 → ℝ) : ℝ :=
  p.sign * (p.lifted ⬝ᵥ w)

end DataPoint

/-- Weights without the offset. -/
def coefficients (w : Fin 3 → ℝ) : Fin 3 → ℝ :=
  Function.update w (Fin.last 2) 0

lemma ofFn_smul_coefficients (c : ℝ) (w : Fin 3 → ℝ) :
    List.ofFn (c • coefficients w) = [c * w 0, c * w 1, 0] := by
  change [c * w 0, c * w 1, c * 0] = _
  rw [mul_zero]

lemma coefficients_dotProduct (w v : Fin 3 → ℝ) :
    coefficients w ⬝ᵥ v = w 0 * v 0 + w 1 * v 1 := by
  rw [vec3_dotProduct]
  change w 0 * v 0 + w 1 * v 1 + 0 * v 2 = _
  rw [zero_mul, add_zero]

namespace Sample

lemma plain_eq (d : Dataset ℝ) :
    plain d = d.points.map fun p => ⟨List.ofFn p.lifted, p.label⟩ :=
  rfl

lemma signed_eq (d : Dataset ℝ) : signed d = d.points.map DataPoint.signedSample :=
  rfl

lemma score_ofFn {n : ℕ} (x w : Fin n → ℝ) (y : ℝ) :
    (⟨List.ofFn x, y⟩ : Sample ℝ).score (List.ofFn w) = x ⬝ᵥ w :=
  dot_ofFn x w

end Sample

lemma Arithmetic.sum_eq (values : List ℝ) : Arithmetic.sum values = values.sum := by
  have hzero : (-0 : ℝ) = 0 := neg_zero
  rw [List.sum_eq_foldl]
  exact congrArg (fun a : ℝ => values.foldl (· + ·) a) hzero

lemma weightSquares_ofFn (w : Fin 3 → ℝ) : weightSquares (List.ofFn w) = w 0 ^ 2 + w 1 ^ 2 := by
  rw [sq, sq]
  rfl

section Sums

variable {α : Type} {n : ℕ}

lemma sum_map_filter {M : Type} [AddCommMonoid M] (p : α → Prop) [DecidablePred p] (f : α → M)
    (items : List α) :
    ((items.filter fun a => p a).map f).sum = (items.map fun a => if p a then f a else 0).sum := by
  rw [List.sum_map_ite, List.sum_map_zero, add_zero]

lemma dotProduct_listSum (values : List (Fin n → ℝ)) (v : Fin n → ℝ) :
    values.sum ⬝ᵥ v = (values.map fun x => x ⬝ᵥ v).sum :=
  map_list_sum
    (AddMonoidHom.mk' (fun x : Fin n → ℝ => x ⬝ᵥ v) fun x z => add_dotProduct x z v) values

/-- A pass that adds a multiple of each vector. -/
lemma foldl_along (items : List α) (x : α → Fin n → ℝ) (c : α → ℝ) (g : Fin n → ℝ) :
    items.foldl (fun g a => along g (c a) (List.ofFn (x a))) (List.ofFn g) =
      List.ofFn (g + (items.map fun a => c a • x a).sum) := by
  induction items generalizing g with
  | nil => simp
  | cons a items ih =>
    rw [List.foldl_cons, along_ofFn, ih, List.map_cons, List.sum_cons, add_assoc]

lemma withdraw_eq_along (g : List ℝ) (factor : ℝ) (s : Sample ℝ) :
    withdraw g factor s = along g (-factor) s.features := by
  refine congrArg (fun f => List.zipWith f g s.features) (funext₂ fun gi xi => ?_)
  ring

lemma addOuter_ofMatrix (H : Matrix (Fin n) (Fin n) ℝ) (x : Fin n → ℝ) (c : ℝ) :
    addOuter (Rows.ofMatrix H) (List.ofFn x) c = Rows.ofMatrix (H + c • vecMulVec x x) := by
  rw [addOuter, Rows.ofMatrix, zipWith_ofFn, Rows.ofMatrix]
  refine congrArg List.ofFn (funext fun i => ?_)
  rw [zipWith_ofFn]
  refine congrArg List.ofFn (funext fun j => ?_)
  change H i j + c * x i * x j = H i j + c * (x i * x j)
  rw [mul_assoc]

/-- A pass that adds a multiple of the outer product of each vector with itself. -/
lemma foldl_addOuter (items : List α) (x : α → Fin n → ℝ) (c : α → ℝ)
    (H : Matrix (Fin n) (Fin n) ℝ) :
    items.foldl (fun h a => addOuter h (List.ofFn (x a)) (c a)) (Rows.ofMatrix H) =
      Rows.ofMatrix (H + (items.map fun a => c a • vecMulVec (x a) (x a)).sum) := by
  induction items generalizing H with
  | nil => simp
  | cons a items ih =>
    rw [List.foldl_cons, addOuter_ofMatrix, ih, List.map_cons, List.sum_cons, add_assoc]

end Sums

end Downhill
