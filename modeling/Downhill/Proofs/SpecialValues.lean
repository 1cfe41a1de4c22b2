import Mathlib
import Downhill.Arithmetic

/-!
# Numbers that are not finite

In both precisions a sum, a difference or a product is finite only if both operands are, and a
quotient only if its dividend is. The inverse of an infinite number is zero, and that of a finite
number other than zero is infinite at worst: the format reaches further down than it reaches up, so
it never rounds to zero. `FiniteResults` and `FiniteReciprocals` say this of any arithmetic,
`PackedArithmetic` is what the two precisions have in common.

The lemmas about unpacking and packing that this starts from are reached through the root of the
library only, so the import is not narrower.
-/

namespace Downhill
open Float.Model Float.Model.UnpackedFloat

/-- Arithmetic in which no operation but the division by an infinite number turns a number that is
not finite into one that is. Nothing is said of how finite results are rounded. -/
class FiniteResults (F : Type) [Arithmetic F] : Prop where
  isNaN_of_isFinite : ∀ {x : F}, Arithmetic.isFinite x = true → Arithmetic.isNaN x = false
  isFinite_eq_of_beq : ∀ {x y : F}, (x == y) = true → Arithmetic.isFinite x = Arithmetic.isFinite y
  add : ∀ {x y : F}, Arithmetic.isFinite (x + y) = true →
    Arithmetic.isFinite x = true ∧ Arithmetic.isFinite y = true
  sub : ∀ {x y : F}, Arithmetic.isFinite (x - y) = true →
    Arithmetic.isFinite x = true ∧ Arithmetic.isFinite y = true
  mul : ∀ {x y : F}, Arithmetic.isFinite (x * y) = true →
    Arithmetic.isFinite x = true ∧ Arithmetic.isFinite y = true
  div : ∀ {x y : F}, Arithmetic.isFinite (x / y) = true →
    Arithmetic.isFinite x = true ∧ Arithmetic.isNaN y = false

/-- Arithmetic in which a number has the inverse zero exactly if it is infinite. -/
class FiniteReciprocals (F : Type) [Arithmetic F] : Prop extends FiniteResults F where
  isFinite_zero : Arithmetic.isFinite (0 : F) = true
  isFinite_one : Arithmetic.isFinite (1 : F) = true
  one_ne_zero : ((1 : F) == 0) = false
  of_infinite : ∀ {x : F}, Arithmetic.isFinite x = false → Arithmetic.isNaN x = false →
    Arithmetic.isFinite (1 / x) = true ∧ (1 / x == 0) = true
  of_finite : ∀ {x : F}, Arithmetic.isFinite x = true → (x == 0) = false →
    Arithmetic.isNaN (1 / x) = false ∧ (1 / x == 0) = false

section Operations

variable {S : Format} {a b : UnpackedFloat}

lemma isFinite_of_add (h : (UnpackedFloat.add S a b).isFinite = true) :
    a.isFinite = true ∧ b.isFinite = true := by
  cases a with
  | notANumber => cases h
  | infinity s =>
    cases b with
    | infinity s' =>
      rw [UnpackedFloat.add] at h
      split at h <;> cases h
    | _ => cases h
  | zero | finite =>
    cases b with
    | infinity | notANumber => cases h
    | zero | finite => exact ⟨rfl, rfl⟩

lemma isFinite_of_sub (h : (UnpackedFloat.sub S a b).isFinite = true) :
    a.isFinite = true ∧ b.isFinite = true := by
  cases a with
  | notANumber => cases h
  | infinity s =>
    cases b with
    | infinity s' =>
      rw [UnpackedFloat.sub] at h
      split at h <;> cases h
    | _ => cases h
  | zero | finite =>
    cases b with
    | infinity | notANumber => cases h
    | zero | finite => exact ⟨rfl, rfl⟩

lemma isFinite_of_mul (h : (UnpackedFloat.mul S a b).isFinite = true) :
    a.isFinite = true ∧ b.isFinite = true := by
  cases a with
  | notANumber => cases h
  | infinity => cases b <;> cases h
  | zero | finite =>
    cases b with
    | infinity | notANumber => cases h
    | zero | finite => exact ⟨rfl, rfl⟩

lemma isFinite_of_div (h : (UnpackedFloat.div S a b).isFinite = true) :
    a.isFinite = true ∧ b.isNaN = false := by
  cases a with
  | notANumber => cases h
  | infinity => cases b <;> cases h
  | zero | finite =>
    cases b with
    | notANumber => cases h
    | _ => exact ⟨rfl, rfl⟩

lemma beq_self_eq_not_isNaN : a.beq a = !a.isNaN := by
  cases a with
  | notANumber => rfl
  | _ => exact (beq_iff_ne_notANumber_and_eq _ _).mpr ⟨nofun, nofun, .inl rfl⟩

lemma isFinite_eq_of_beq_true (h : a.beq b = true) : a.isFinite = b.isFinite := by
  obtain ⟨-, -, rfl | ⟨rfl, rfl⟩ | ⟨rfl, rfl⟩⟩ := (beq_iff_ne_notANumber_and_eq a b).mp h <;> rfl

/-- Only the two zeros are equal to zero. -/
lemma beq_zero_iff : a.beq (.zero .positive) = true ↔ ∃ s, a = .zero s := by
  constructor
  · intro h
    obtain ⟨-, -, rfl | ⟨-, hne⟩ | ⟨rfl, -⟩⟩ := (beq_iff_ne_notANumber_and_eq _ _).mp h
    · exact ⟨_, rfl⟩
    · cases hne
    · exact ⟨_, rfl⟩
  · rintro ⟨s, rfl⟩
    cases s <;> rfl

end Operations

/-! ### Packing and rounding -/

section Rounding

variable {S : Format}

lemma minExponent_eq : S.minExponent = 1 - S.exponentBias - S.mantissaBitsWithoutImplicit := by
  have hpos := Nat.two_pow_pos (S.exponentBits - 1)
  unfold Format.minExponent Format.exponentBias Format.mantissaBits
  rw [Nat.cast_sub hpos]
  push_cast
  ring

lemma two_pow_exponentBits : 2 ^ S.exponentBits = 2 * S.exponentBias + 2 := by
  have hpos := Nat.two_pow_pos (S.exponentBits - 1)
  have hbits : S.exponentBits = S.exponentBits - 1 + 1 := (Nat.sub_add_cancel S.he).symm
  rw [hbits, Nat.pow_succ]
  unfold Format.exponentBias
  omega

lemma unpack_packedInfinity (s : Sign) :
    UnpackedFloat.unpack S (packedInfinity S s) = .infinity s := by
  unfold UnpackedFloat.unpack packedInfinity
  simp only [unpackExponent_packComponents, unpackMantissa_packComponents,
    unpackSign_packComponents, Sign.ofBitVec_toBitVec]
  rfl

lemma isFinite_of_unpack_pack {a : UnpackedFloat}
    (h : (UnpackedFloat.unpack S (UnpackedFloat.pack S a)).isFinite = true) :
    a.isFinite = true := by
  cases a with
  | infinity s =>
    rw [UnpackedFloat.pack, unpack_packedInfinity] at h
    exact h
  | notANumber =>
    rw [UnpackedFloat.pack, unpack_packedNaN] at h
    exact h
  | zero | finite => rfl

/-- Neither a zero nor no number. -/
def IsNonzero : UnpackedFloat → Prop
  | .infinity _ | .finite .. => True
  | .zero _ | .notANumber => False

lemma isNonzero_unpack_packComponents (s : Sign) {exponent : BitVec S.exponentBits}
    {mantissa : BitVec S.mantissaBitsWithoutImplicit} (hspecial : exponent ≠ -1#_)
    (h : exponent ≠ 0#_ ∨ mantissa ≠ 0#_) :
    IsNonzero (UnpackedFloat.unpack S (packComponents S s exponent mantissa)) := by
  unfold UnpackedFloat.unpack
  simp only [unpackExponent_packComponents, unpackMantissa_packComponents,
    unpackSign_packComponents, if_neg hspecial]
  by_cases hexponent : exponent = 0#_
  · rw [if_pos hexponent, dif_neg (h.resolve_left (not_not.mpr hexponent))]
    trivial
  · rw [if_neg hexponent]
    trivial

/-- A number that fits the format is not packed as a zero. -/
lemma isNonzero_unpack_pack (s : Sign) {m : ℕ} (hm : 0 < m) (hfits : m < 2 ^ S.mantissaBits)
    {e : ℤ} (he : S.minExponent ≤ e) :
    IsNonzero (UnpackedFloat.unpack S (UnpackedFloat.pack S (.finite s m e hm))) := by
  have hcapacity := two_pow_exponentBits (S := S)
  rw [minExponent_eq] at he
  rw [UnpackedFloat.pack]
  obtain ⟨k, hk⟩ : ∃ k, (e + S.exponentBias + S.mantissaBitsWithoutImplicit).toNat = k := ⟨_, rfl⟩
  simp only [hk]
  split_ifs with hlarge hnormal
  · rw [unpack_packedInfinity]
    trivial
  · have hk' : (BitVec.ofNat S.exponentBits k).toNat = k :=
      (BitVec.toNat_ofNat ..).trans (Nat.mod_eq_of_lt (by omega))
    refine isNonzero_unpack_packComponents s (fun h => ?_) (.inl fun h => ?_)
    · rw [h, BitVec.neg_one_eq_allOnes, BitVec.toNat_allOnes] at hk'
      omega
    · rw [h, BitVec.toNat_zero] at hk'
      omega
  · have hsmall : m < 2 ^ S.mantissaBitsWithoutImplicit := by
      have hlog := (Nat.log2_lt hm.ne').mpr hfits
      rw [← Nat.log2_lt hm.ne']
      unfold Format.mantissaBits at hlog hnormal
      omega
    have hm' : (BitVec.ofNat S.mantissaBitsWithoutImplicit m).toNat = m :=
      (BitVec.toNat_ofNat ..).trans (Nat.mod_eq_of_lt hsmall)
    refine isNonzero_unpack_packComponents s (fun h => ?_) (.inr fun h => ?_)
    · have h' := congrArg BitVec.toNat h
      rw [BitVec.neg_one_eq_allOnes, BitVec.toNat_allOnes, BitVec.toNat_zero] at h'
      omega
    · rw [h, BitVec.toNat_zero] at hm'
      omega

lemma mantissa_shiftRight (em : ExtendedMantissa) (k : ℕ) :
    (em >>> k).mantissa = em.mantissa / 2 ^ k := by
  change (k.repeat ExtendedMantissa.shiftRightOne em).mantissa = _
  induction k with
  | zero =>
    rw [Nat.pow_zero, Nat.div_one]
    rfl
  | succ k ih =>
    rw [Nat.repeat, Nat.pow_succ, ← Nat.div_div_eq_div_mul, ← ih]
    rfl

lemma mantissa_ofMantissaAndAccuracy (m : ℕ) (accuracy : Accuracy) :
    (ExtendedMantissa.ofMantissaAndAccuracy m accuracy).mantissa = m := by
  rcases accuracy with _ | _ | _ | _ <;> rfl

lemma le_roundToNearestEven (m : ℕ) (accuracy : Accuracy) : m ≤ accuracy.roundToNearestEven m := by
  rcases accuracy with _ | _ | _ | _ <;> simp only [Accuracy.roundToNearestEven] <;> omega

/-- A positive mantissa at an exponent of the format stays positive when it is moved to its place,
and then it fits. -/
lemma shiftToTargetExponent_bounds {m : ℕ} (hm : 0 < m) {e : ℤ} (he : S.minExponent ≤ e)
    (accuracy : Accuracy) :
    let moved := shiftToTargetExponent S m e accuracy
    0 < moved.1.mantissa ∧ moved.1.mantissa < 2 ^ S.mantissaBits ∧ S.minExponent ≤ moved.2 := by
  have hlow := Nat.log2_self_le hm.ne'
  have hhigh := Nat.lt_log2_self (n := m)
  simp only [shiftToTargetExponent, shiftToExponent, mantissa_shiftRight,
    mantissa_ofMantissaAndAccuracy]
  obtain ⟨k, hk⟩ : ∃ k, (S.targetExponent (totalExponent m e) - e).toNat = k := ⟨_, rfl⟩
  -- The shift takes no more than the places that the mantissa has in excess.
  have hshort : k ≤ m.log2 := by
    unfold Format.targetExponent totalExponent Format.mantissaBits at hk
    omega
  have hfits : m.log2 + 1 ≤ S.mantissaBits + k := by
    unfold Format.targetExponent totalExponent at hk
    omega
  rw [hk]
  refine ⟨Nat.div_pos ((Nat.pow_le_pow_right two_pos hshort).trans hlow) (Nat.two_pow_pos k), ?_,
    by omega⟩
  rw [Nat.div_lt_iff_lt_mul (Nat.two_pow_pos k), ← Nat.pow_add]
  exact hhigh.trans_le (Nat.pow_le_pow_right two_pos hfits)

lemma roundWithAccuracy_eq_finite (s : Sign) {m : ℕ} (hm : 0 < m) {e : ℤ} (he : S.minExponent ≤ e)
    (accuracy : Accuracy) :
    ∃ m' e', ∃ hm' : 0 < m', roundWithAccuracy S s m e accuracy = .finite s m' e' hm' ∧
      m' < 2 ^ S.mantissaBits ∧ S.minExponent ≤ e' := by
  obtain ⟨hpos, -, hexponent⟩ := shiftToTargetExponent_bounds hm he accuracy
  have hrounded : 0 < (shiftToTargetExponent S m e accuracy).1.roundedMantissa :=
    hpos.trans_le (le_roundToNearestEven _ _)
  -- Rounding may carry into a further place, so the result is moved once more.
  obtain ⟨hpos', hfits, hexponent'⟩ := shiftToTargetExponent_bounds hrounded hexponent .exact
  exact ⟨_, _, hpos', dif_neg hpos'.ne', hfits, hexponent'⟩

/-- How large the mantissa and the exponent of a finite number can be. -/
lemma unpack_finite_bounds (hbits : 2 ≤ S.exponentBits) {b : BitVec S.numBits} {s : Sign} {m : ℕ}
    {e : ℤ} {hm : 0 < m} (h : UnpackedFloat.unpack S b = .finite s m e hm) :
    m < 2 ^ S.mantissaBits ∧ e + S.mantissaBitsWithoutImplicit ≤ S.exponentBias := by
  have hcapacity := two_pow_exponentBits (S := S)
  have hbias : 2 ^ 2 ≤ 2 ^ S.exponentBits := Nat.pow_le_pow_right two_pos hbits
  have hmantissa := (unpackMantissa b).isLt
  have hexponent := (unpackExponent b).isLt
  have hpow : 2 ^ S.mantissaBits = 2 * 2 ^ S.mantissaBitsWithoutImplicit := by
    rw [Format.mantissaBits, Nat.pow_add, Nat.pow_one]
  rw [hpow]
  unfold UnpackedFloat.unpack at h
  simp only at h
  split_ifs at h with hspecial _ hzero
  · cases h
    rw [hzero, BitVec.toNat_zero]
    omega
  · cases h
    have hlast : (unpackExponent b).toNat ≠ 2 ^ S.exponentBits - 1 := by
      intro hlast
      apply hspecial
      rw [BitVec.neg_one_eq_allOnes, ← BitVec.toNat_inj, BitVec.toNat_allOnes, hlast]
    have hvalue : (1#1 ++ unpackMantissa b).toNat =
        2 ^ S.mantissaBitsWithoutImplicit + (unpackMantissa b).toNat := by
      rw [BitVec.toNat_append, ← Nat.shiftLeft_add_eq_or_of_lt hmantissa, Nat.shiftLeft_eq]
      simp
    rw [hvalue]
    omega

/-- The number one, with the leading bit of its mantissa in the place of the implicit bit. -/
def unpackedOne (S : Format) : UnpackedFloat :=
  .finite .positive (2 ^ S.mantissaBitsWithoutImplicit) (-S.mantissaBitsWithoutImplicit)
    (Nat.two_pow_pos _)

/-- The inverse of a finite number is too large to be rounded to zero. -/
lemma isNonzero_one_div (hbits : 2 ≤ S.exponentBits) (hplaces : 2 ≤ S.mantissaBitsWithoutImplicit)
    {b : BitVec S.numBits} {s : Sign} {m : ℕ} {e : ℤ} {hm : 0 < m}
    (h : UnpackedFloat.unpack S b = .finite s m e hm) :
    IsNonzero (UnpackedFloat.unpack S (UnpackedFloat.pack S
      (UnpackedFloat.div S (unpackedOne S) (.finite s m e hm)))) := by
  obtain ⟨hfits, hexponent⟩ := unpack_finite_bounds hbits h
  have hlog := (Nat.log2_lt hm.ne').mpr hfits
  have hmin := minExponent_eq (S := S)
  have htop := Nat.lt_log2_self (n := m)
  simp only [unpackedOne, UnpackedFloat.div, divCore]
  generalize hk : min _ (S.targetExponent _) = t
  have ht : S.minExponent ≤ t := by
    unfold Format.targetExponent at hk
    omega
  have hquotient : 0 < (2 ^ S.mantissaBitsWithoutImplicit) <<<
      (-S.mantissaBitsWithoutImplicit - e - t).toNat / m := by
    rw [Nat.shiftLeft_eq, ← Nat.pow_add]
    refine Nat.div_pos (htop.le.trans (Nat.pow_le_pow_right two_pos ?_)) hm
    unfold Format.targetExponent totalExponent Format.mantissaBits at hk
    unfold Format.mantissaBits at hlog
    rw [Nat.log2_two_pow] at hk
    push_cast at hk
    omega
  obtain ⟨m', e', hm', hround, hfits', he'⟩ := roundWithAccuracy_eq_finite (.positive / s)
    hquotient ht (accuracyOfFraction (2 ^ S.mantissaBitsWithoutImplicit <<<
      (-S.mantissaBitsWithoutImplicit - e - t).toNat % m) m)
  rw [hround]
  exact isNonzero_unpack_pack _ hm' hfits' he'

end Rounding

/-! ### The two precisions -/

/-- Arithmetic on the bit patterns of a format: a result is computed from the operands as numbers,
rounded and packed again. -/
class PackedArithmetic (F : Type) [Arithmetic F] where
  format : Format
  exponentBits_ge : 2 ≤ format.exponentBits
  mantissaBits_ge : 2 ≤ format.mantissaBitsWithoutImplicit
  bits : F → BitVec format.numBits
  isFinite_eq : ∀ x : F, Arithmetic.isFinite x = (unpack format (bits x)).isFinite
  beq_eq : ∀ x y : F, (x == y) = (unpack format (bits x)).beq (unpack format (bits y))
  bits_add : ∀ x y : F, bits (x + y) =
    pack format (UnpackedFloat.add format (unpack format (bits x)) (unpack format (bits y)))
  bits_sub : ∀ x y : F, bits (x - y) =
    pack format (UnpackedFloat.sub format (unpack format (bits x)) (unpack format (bits y)))
  bits_mul : ∀ x y : F, bits (x * y) =
    pack format (UnpackedFloat.mul format (unpack format (bits x)) (unpack format (bits y)))
  bits_div : ∀ x y : F, bits (x / y) =
    pack format (UnpackedFloat.div format (unpack format (bits x)) (unpack format (bits y)))
  unpack_zero : unpack format (bits 0) = .zero .positive
  unpack_one : unpack format (bits 1) = unpackedOne format

namespace PackedArithmetic

variable {F : Type} [Arithmetic F] [PackedArithmetic F]

/-- The number that a bit pattern stands for. -/
def unpacked (x : F) : UnpackedFloat :=
  UnpackedFloat.unpack (format F) (bits x)

lemma isNaN_eq (x : F) : Arithmetic.isNaN x = (unpacked x).isNaN := by
  rw [Arithmetic.isNaN, beq_eq]
  exact (congrArg not beq_self_eq_not_isNaN).trans (Bool.not_not _)

lemma beq_zero_iff_unpacked (x : F) : (x == 0) = true ↔ ∃ s, unpacked x = .zero s := by
  rw [beq_eq, unpack_zero]
  exact beq_zero_iff

lemma one_div_of_isNonzero {x : F} (h : IsNonzero (unpacked (1 / x))) :
    Arithmetic.isNaN (1 / x) = false ∧ (1 / x == 0) = false := by
  rw [isNaN_eq, Bool.eq_false_iff (b := _ == _), ne_eq, beq_zero_iff_unpacked]
  cases hx : unpacked (1 / x) with
  | infinity | finite => exact ⟨rfl, by rintro ⟨s, ⟨⟩⟩⟩
  | notANumber | zero =>
    rw [hx] at h
    exact h.elim

instance : FiniteReciprocals F where
  isNaN_of_isFinite {x} h := by
    rw [isFinite_eq] at h
    rw [isNaN_eq]
    cases hx : unpacked x with
    | notANumber =>
      rw [unpacked] at hx
      rw [hx] at h
      cases h
    | _ => rfl
  isFinite_eq_of_beq {x y} h := by
    rw [isFinite_eq, isFinite_eq]
    exact isFinite_eq_of_beq_true (beq_eq x y ▸ h)
  add {x y} h := by
    rw [isFinite_eq, bits_add] at h
    rw [isFinite_eq, isFinite_eq]
    exact isFinite_of_add (isFinite_of_unpack_pack h)
  sub {x y} h := by
    rw [isFinite_eq, bits_sub] at h
    rw [isFinite_eq, isFinite_eq]
    exact isFinite_of_sub (isFinite_of_unpack_pack h)
  mul {x y} h := by
    rw [isFinite_eq, bits_mul] at h
    rw [isFinite_eq, isFinite_eq]
    exact isFinite_of_mul (isFinite_of_unpack_pack h)
  div {x y} h := by
    rw [isFinite_eq, bits_div] at h
    rw [isFinite_eq, isNaN_eq]
    exact isFinite_of_div (isFinite_of_unpack_pack h)
  isFinite_zero := by
    rw [isFinite_eq, unpack_zero]
    rfl
  isFinite_one := by
    rw [isFinite_eq, unpack_one]
    rfl
  one_ne_zero := by
    rw [beq_eq, unpack_zero, unpack_one]
    rfl
  of_infinite {x} hx hnan := by
    rw [isFinite_eq] at hx
    rw [isNaN_eq] at hnan
    obtain ⟨s, hs⟩ : ∃ s, unpacked x = .infinity s := by
      cases hinfinite : unpacked x with
      | infinity s => exact ⟨s, rfl⟩
      | _ => simp_all [unpacked, UnpackedFloat.isFinite, UnpackedFloat.isNaN]
    have hzero : unpacked (1 / x) = .zero (.positive / s) := by
      rw [unpacked] at hs
      rw [unpacked, bits_div, unpack_one, hs]
      exact unpack_packedZero
    refine ⟨?_, (beq_zero_iff_unpacked _).mpr ⟨_, hzero⟩⟩
    rw [isFinite_eq]
    exact congrArg UnpackedFloat.isFinite hzero
  of_finite {x} hx hzero := by
    rw [isFinite_eq] at hx
    apply one_div_of_isNonzero
    rw [unpacked, bits_div, unpack_one]
    cases hfinite : UnpackedFloat.unpack (format F) (bits x) with
    | infinity | notANumber =>
      rw [hfinite] at hx
      cases hx
    | zero s =>
      rw [(beq_zero_iff_unpacked x).mpr ⟨s, hfinite⟩] at hzero
      cases hzero
    | finite s m e hm => exact isNonzero_one_div exponentBits_ge mantissaBits_ge hfinite

end PackedArithmetic

instance : PackedArithmetic Float where
  format := .binary64
  exponentBits_ge := by decide
  mantissaBits_ge := by decide
  bits x := x.toModel.toBits.toBitVec
  isFinite_eq _ := rfl
  beq_eq _ _ := rfl
  bits_add _ _ := rfl
  bits_sub _ _ := rfl
  bits_mul _ _ := rfl
  bits_div _ _ := rfl
  unpack_zero := by rfl
  unpack_one := by rfl

instance : PackedArithmetic Float32 where
  format := .binary32
  exponentBits_ge := by decide
  mantissaBits_ge := by decide
  bits x := x.toModel.toBits.toBitVec
  isFinite_eq _ := rfl
  beq_eq _ _ := rfl
  bits_add _ _ := rfl
  bits_sub _ _ := rfl
  bits_mul _ _ := rfl
  bits_div _ _ := rfl
  unpack_zero := by rfl
  unpack_one := by rfl

end Downhill
