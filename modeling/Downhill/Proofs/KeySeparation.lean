import Downhill.Cache.Key
import Downhill.Proofs.Narrowing

/-!
# Keys separate runs

A key flattens the options of a run into one list of numbers without tags. Different options still
make different lists: the numbers of fixed meaning come first, and every real stands for itself by
its bit pattern. For single precision that pattern is the one of the widened number, so widening has
to keep different numbers apart.

`keys_separate_configurations` says of both precisions that keys are equal exactly if everything is
that they were made of.
-/

namespace Downhill

/-- Binary arithmetic whose numbers stay different when they become doubles. -/
class ExactBinary (F : Type) [Binary F] : Prop where
  toDouble_injective : Function.Injective (Binary.toDouble : F → Float)

instance : ExactBinary Float where
  toDouble_injective := Function.injective_id

instance : ExactBinary Float32 where
  toDouble_injective := Function.LeftInverse.injective narrow_widen

/-- Options that agree in every field, where `same` tells when two numbers are the same. -/
structure Options.AgreeUpTo {F : Type} (same : F → F → Prop) (o o' : Options F) : Prop where
  maxIter : o.maxIter = o'.maxIter
  initialPoint : List.Forall₂ same o.initialPoint o'.initialPoint
  alpha : same o.alpha o'.alpha
  c1 : same o.c1 o'.c1
  memory : o.memory = o'.memory
  hessianDamping : same o.hessianDamping o'.hessianDamping
  lineSearch : o.lineSearch = o'.lineSearch
  maxLineSearchTrials : o.maxLineSearchTrials = o'.maxLineSearchTrials
  gtol : same o.termination.gtol o'.termination.gtol
  ftol : same o.termination.ftol o'.termination.ftol
  xtol : same o.termination.xtol o'.termination.xtol

lemma Options.agreeUpTo_iff_eq {F : Type} {same : F → F → Prop} (h : ∀ x y, same x y ↔ x = y)
    (o o' : Options F) : o.AgreeUpTo same o' ↔ o = o' := by
  obtain rfl : same = Eq := funext₂ fun x y => propext (h x y)
  constructor
  · rintro ⟨hmaxIter, hpoint, halpha, hc1, hmemory, hdamping, hmode, htrials, hgtol, hftol, hxtol⟩
    rw [List.forall₂_eq_eq_eq] at hpoint
    have htolerances : o.termination = o'.termination := by
      cases hleft : o.termination
      cases hright : o'.termination
      simp_all
    cases o
    cases o'
    simp_all
  · rintro rfl
    have hpoint : List.Forall₂ Eq o.initialPoint o.initialPoint := by rw [List.forall₂_eq_eq_eq]
    exact ⟨rfl, hpoint, rfl, rfl, rfl, rfl, rfl, rfl, rfl, rfl, rfl⟩

variable {F : Type} [Binary F]

lemma bits_injective [ExactBinary F] : Function.Injective (Binary.bits : F → Nat) := by
  intro x y h
  exact ExactBinary.toDouble_injective (Float.toBits_inj.mp (UInt64.toNat_inj.mp h))

namespace TraceKey

lemma modeWord_injective : Function.Injective modeWord := by
  intro mode mode' h
  cases mode <;> cases mode' <;> simp_all [modeWord]

/-- Equal lists of numbers come from equal fields: all but the last one have a fixed place, and the
initial point is what follows them. -/
lemma words_eq_iff {o o' : Options F} :
    words o = words o' ↔ o.AgreeUpTo (fun x y => Binary.bits x = Binary.bits y) o' := by
  have hpoint : o.initialPoint.map Binary.bits = o'.initialPoint.map Binary.bits ↔
      List.Forall₂ (fun x y => Binary.bits x = Binary.bits y) o.initialPoint o'.initialPoint := by
    rw [← List.forall₂_eq_eq_eq, List.forall₂_map_left_iff, List.forall₂_map_right_iff]
  simp only [words, List.cons_append, List.nil_append, List.cons.injEq, modeWord_injective.eq_iff,
    hpoint]
  constructor
  · rintro ⟨hmaxIter, hmemory, htrials, hmode, halpha, hc1, hdamping, hgtol, hftol, hxtol, hpoint⟩
    exact ⟨hmaxIter, hpoint, halpha, hc1, hmemory, hdamping, hmode, htrials, hgtol, hftol, hxtol⟩
  · intro h
    exact ⟨h.maxIter, h.memory, h.maxLineSearchTrials, h.lineSearch, h.alpha, h.c1,
      h.hessianDamping, h.gtol, h.ftol, h.xtol, h.initialPoint⟩

variable [ExactBinary F]

/-- Runs share a key only if they are the same. -/
lemma ofOptions_inj {problem problem' : String} {algorithm algorithm' : Algorithm}
    {o o' : Options F} :
    ofOptions problem algorithm o = ofOptions problem' algorithm' o' ↔
      problem = problem' ∧ algorithm = algorithm' ∧ o = o' := by
  rw [ofOptions, ofOptions, mk.injEq, words_eq_iff,
    Options.agreeUpTo_iff_eq fun _ _ => bits_injective.eq_iff]

/-- Keys of runs over `F` are equal exactly if the problems, the methods and the options are, where
`same` tells when two numbers are. -/
def Separates (same : F → F → Prop) : Prop :=
  ∀ (problem problem' : String) (algorithm algorithm' : Algorithm) (o o' : Options F),
    ofOptions problem algorithm o = ofOptions problem' algorithm' o' ↔
      problem = problem' ∧ algorithm = algorithm' ∧ o.AgreeUpTo same o'

lemma separates_of_iff_eq {same : F → F → Prop} (h : ∀ x y, same x y ↔ x = y) :
    Separates same := by
  intro problem problem' algorithm algorithm' o o'
  rw [ofOptions_inj, Options.agreeUpTo_iff_eq h]

end TraceKey

/-- Two numbers with one bit pattern, or two that are no numbers. -/
def SameBits {F β : Type} (bits : F → β) (isNaN : F → Bool) (x y : F) : Prop :=
  bits x = bits y ∨ isNaN x = true ∧ isNaN y = true

lemma sameBits_iff_eq {F β : Type} [DecidableEq F] {bits : F → β} {isNaN : F → Bool} {nan : F}
    (hbits : ∀ {x y}, bits x = bits y ↔ x = y) (hnan : ∀ {x}, isNaN x = decide (x = nan))
    (x y : F) : SameBits bits isNaN x y ↔ x = y := by
  rw [SameBits, hbits, hnan, hnan, decide_eq_true_eq, decide_eq_true_eq]
  exact or_iff_left_of_imp fun ⟨hx, hy⟩ => hx.trans hy.symm

/-- In both precisions two runs share a key exactly if nothing in their configurations differs, down
to the last bit of every number. -/
theorem keys_separate_configurations :
    TraceKey.Separates (SameBits Float.toBits Float.isNaN) ∧
      TraceKey.Separates (SameBits Float32.toBits Float32.isNaN) := by
  constructor
  · exact TraceKey.separates_of_iff_eq
      (sameBits_iff_eq Float.toBits_inj Float.isNaN_eq_decide_eq_nan)
  · exact TraceKey.separates_of_iff_eq
      (sameBits_iff_eq Float32.toBits_inj Float32.isNaN_eq_decide_eq_nan)

/-- The two zeros are different, and a number that is none is the same whatever its sign. -/
example : ¬ SameBits Float.toBits Float.isNaN 0.0 (-0.0) ∧
    SameBits Float.toBits Float.isNaN (0.0 / 0.0) (-(0.0 / 0.0)) := by
  unfold SameBits
  decide

end Downhill
