import Mathlib.Tactic.Common
import Downhill.Method.TwoLoop

/-!
# The two loops one after the other

`TwoLoop.loops` nests the second loop in the first one. Here the loops stand apart: `backward` goes
from the newest pair to the oldest, `forward` comes back, and all that it takes from the first loop
is the scaled vector and the coefficient of each pair.
-/

namespace Downhill
namespace TwoLoop

variable {F : Type} [Arithmetic F]

/-- The first loop over the pairs, newest first: its stages and the vector that is left. -/
def backward : List (CurvaturePair F) → List F → List (TwoLoopStep F) × List F
  | [], q => ([], q)
  | pair :: older, q =>
    let alpha := pair.rho * dot pair.s q
    let q := List.zipWith (fun qj yj => qj - alpha * yj) q pair.y
    let (stages, last) := backward older q
    (⟨older.length, alpha, q⟩ :: stages, last)

/-- The second loop over the pairs, oldest first, each with its stage of the first loop. -/
def forward : List (CurvaturePair F × TwoLoopStep F) → List F → List (TwoLoopStep F) × List F
  | [], r => ([], r)
  | (pair, stage) :: newer, r =>
    let beta := pair.rho * dot pair.y r
    let r := List.zipWith (fun rj sj => rj + (stage.coefficient - beta) * sj) r pair.s
    let (stages, last) := forward newer r
    (⟨stage.pair, beta, r⟩ :: stages, last)

lemma forward_append (first second : List (CurvaturePair F × TwoLoopStep F)) (r : List F) :
    forward (first ++ second) r =
      ((forward first r).1 ++ (forward second (forward first r).2).1,
        (forward second (forward first r).2).2) := by
  induction first generalizing r with
  | nil => rfl
  | cons p newer ih => simp only [List.cons_append, forward, ih]

/-- The nested loops are the first loop, the scaling and the second loop. -/
theorem loops_eq_backward_forward (gamma : F) (pairs : List (CurvaturePair F)) (q : List F) :
    loops gamma pairs q =
      let (stages, last) := backward pairs q
      let (back, product) := forward (pairs.zip stages).reverse (scale gamma last)
      (product, stages, back) := by
  induction pairs generalizing q with
  | nil => rfl
  | cons pair older ih =>
    -- What the loops over the older pairs leave is where the last stage of the way back begins.
    simp only [loops, backward, ih, List.zip_cons_cons, List.reverse_cons, forward_append]
    rfl

lemma backward_places (pairs : List (CurvaturePair F)) (q : List F) :
    (backward pairs q).1.map (·.pair) = (List.range pairs.length).reverse := by
  induction pairs generalizing q with
  | nil => rfl
  | cons pair older ih =>
    simp only [backward, List.map_cons, ih, List.length_cons, List.range_succ,
      List.reverse_append, List.reverse_singleton, List.singleton_append]

lemma forward_places (staged : List (CurvaturePair F × TwoLoopStep F)) (r : List F) :
    (forward staged r).1.map (·.pair) = staged.map (·.2.pair) := by
  induction staged generalizing r with
  | nil => rfl
  | cons p newer ih => simp only [forward, List.map_cons, ih]

lemma forward_getLast? (staged : List (CurvaturePair F × TwoLoopStep F)) (r : List F)
    (h : staged ≠ []) :
    (forward staged r).1.getLast?.map (·.vector) = some (forward staged r).2 := by
  induction staged generalizing r with
  | nil => exact absurd rfl h
  | cons p newer ih =>
    cases newer with
    | nil => rfl
    | cons p' newest =>
      have hrest := ih (List.zipWith
        (fun rj sj => rj + (p.2.coefficient - p.1.rho * dot p.1.y r) * sj) r p.1.s) (by simp)
      simp only [forward, List.getLast?_cons_cons] at hrest ⊢
      exact hrest

/-- The first loop names each pair by its place from the newest to the oldest, the second one from
the oldest to the newest, and the last stage of the second loop is the product. -/
lemma recursion_stages (gradient : List F) (newest : CurvaturePair F)
    (older : List (CurvaturePair F)) :
    let (product, stages) := recursion gradient newest older
    stages.backward.map (·.pair) = (List.range (newest :: older).length).reverse ∧
      stages.forward.map (·.pair) = List.range (newest :: older).length ∧
      stages.forward.getLast?.map (·.vector) = some product := by
  have hplaces := backward_places (newest :: older) gradient
  have hlength : (backward (newest :: older) gradient).1.length = (newest :: older).length := by
    simpa using congrArg List.length hplaces
  simp only [recursion, loops_eq_backward_forward]
  refine ⟨hplaces, ?_, ?_⟩
  · have hzip : ((newest :: older).zip (backward (newest :: older) gradient).1).map (·.2.pair) =
        (backward (newest :: older) gradient).1.map (·.pair) := by
      conv_rhs => rw [← List.map_snd_zip (Nat.le_of_eq hlength), List.map_map]
      rfl
    rw [forward_places, List.map_reverse, hzip, hplaces, List.reverse_reverse]
  · apply forward_getLast?
    simp [backward]

end TwoLoop
end Downhill
